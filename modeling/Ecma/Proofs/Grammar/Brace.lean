import Ecma.Proofs.Grammar.Lexeme

set_option autoImplicit false

/-!
Braces outside strings and comments. What an expression of the grammar matches opens as many as it closes,
unless it is a brace itself.
-/

namespace Ecma.Grammar

open Ecma.Text

/-! The balance of a text. -/

theorem string_after_shorter (quote : Char) (rest : List Char) : (stringAfter quote rest).length ≤ rest.length := by
  fun_induction stringAfter quote rest with
  | case1 => exact Nat.le_refl _
  | case2 => exact Nat.le_refl _
  | case3 rest hyp =>
    rw [List.length_cons, List.length_cons, List.length_cons]
    omega
  | case4 c rest other hyp =>
    rw [List.length_cons, List.length_cons]
    omega
  | case5 => exact Nat.le_refl _
  | case6 c rest _ _ _ _ hyp => exact Nat.le_succ_of_le hyp

theorem close_string_shorter (quote : Char) (rest after : List Char) (closed : closeString quote rest = some after) :
    after.length < rest.length := by
  have shorter := string_after_shorter quote rest
  rw [closeString] at closed
  split at closed
  · rename_i c left is
    obtain ⟨_, same⟩ := Option.ite_none_right_eq_some.mp closed
    cases same
    rw [is] at shorter
    exact shorter
  · cases closed

def isQuote (c : Char) : Bool :=
  c == '"' || c == '\''

/-- What is left behind a slash and the comment that begins with it. -/
def slashAfter : List Char → List Char
  | '/' :: rest => lineAfter rest
  | '*' :: rest => (closeComment true rest).getD ('*' :: rest)
  | rest => rest

/-- What is left behind a character and the comment or the string that begins with it. -/
def charAfter (c : Char) (rest : List Char) : List Char :=
  if c = '/' then slashAfter rest
  else if isQuote c then (closeString c rest).getD rest
  else rest

def weight (c : Char) : Int :=
  if c = '{' then 1 else if c = '}' then -1 else 0

theorem slash_after_shorter (rest : List Char) : (slashAfter rest).length ≤ rest.length := by
  fun_cases slashAfter rest with
  | case1 rest => exact Nat.le_succ_of_le (line_after_shorter rest)
  | case2 rest =>
    cases closed : closeComment true rest with
    | none => exact Nat.le_refl _
    | some after => exact Nat.le_succ_of_le (Nat.le_of_lt (close_comment_shorter true rest after closed))
  | case3 => exact Nat.le_refl _

theorem char_after_shorter (c : Char) (rest : List Char) : (charAfter c rest).length ≤ rest.length := by
  rw [charAfter]
  split
  · exact slash_after_shorter rest
  · split
    · cases closed : closeString c rest with
      | none => exact Nat.le_refl _
      | some after => exact Nat.le_of_lt (close_string_shorter c rest after closed)
    · exact Nat.le_refl _

/-- How many more braces a text opens than it closes, outside comments and strings that end. -/
def balance : List Char → Int
  | [] => 0
  | c :: rest => weight c + balance (charAfter c rest)
termination_by cs => cs.length
decreasing_by exact Nat.lt_succ_of_le (char_after_shorter c rest)

theorem balance_brace (rest : List Char) :
    balance ('{' :: rest) = balance rest + 1 ∧ balance ('}' :: rest) = balance rest - 1 := by
  rw [balance, balance, weight, weight, charAfter, charAfter]
  refine ⟨?_, ?_⟩
  · change 1 + balance rest = _
    omega
  · change -1 + balance rest = _
    omega

/-- Characters that mean something to the balance. -/
def marks : List Char :=
  ['{', '}', '"', '\'', '/']

theorem none_of (cs : List Char) (member : Char → Bool) (none : cs.any member = false) :
    ∀ c ∈ cs, member c = false :=
  fun c among => Bool.eq_false_iff.mpr fun fits => List.any_eq_false.mp none c among fits

theorem none_in (cs bad : List Char) (none : cs.any bad.contains = false) : ∀ c ∈ cs, c ∉ bad :=
  fun c among contra => List.any_eq_false.mp none c among (List.contains_iff_mem.mpr contra)

theorem balance_plain (c : Char) (rest : List Char) (plain : c ∉ marks) : balance (c :: rest) = balance rest := by
  have other (d : Char) (member : d ∈ marks) : c ≠ d := by
    rintro rfl
    exact plain member
  have quote : isQuote c = false := by
    rw [isQuote, Bool.or_eq_false_iff, beq_eq_false_iff_ne, beq_eq_false_iff_ne]
    exact ⟨other '"' (by decide), other '\'' (by decide)⟩
  rw [balance, weight, if_neg (other '{' (by decide)), if_neg (other '}' (by decide)), Int.zero_add, charAfter,
    if_neg (other '/' (by decide)), quote]
  rfl

theorem balance_stretch (cs rest : List Char) (plain : ∀ c ∈ cs, c ∉ marks) : balance (cs ++ rest) = balance rest := by
  induction cs with
  | nil => rfl
  | cons c cs hyp =>
    rw [List.cons_append, balance_plain c _ (plain c List.mem_cons_self),
      hyp fun d member => plain d (List.mem_cons_of_mem c member)]

theorem balance_comment (rest after : List Char) (closed : closeComment true rest = some after) :
    balance ('/' :: '*' :: rest) = balance after := by
  rw [balance, charAfter, if_pos rfl, slashAfter, closed]
  exact Int.zero_add _

theorem balance_line (rest : List Char) : balance ('/' :: '/' :: rest) = balance (lineAfter rest) := by
  rw [balance, charAfter, if_pos rfl, slashAfter]
  exact Int.zero_add _

theorem balance_string (quote : Char) (rest after : List Char) (quotes : isQuote quote = true)
    (closed : closeString quote rest = some after) : balance (quote :: rest) = balance after := by
  have other (d : Char) (same : isQuote d = false) : quote ≠ d := by
    rintro rfl
    rw [same] at quotes
    cases quotes
  rw [balance, weight, if_neg (other '{' rfl), if_neg (other '}' rfl), Int.zero_add, charAfter, if_neg (other '/' rfl),
    if_pos quotes, closed]
  rfl

theorem balance_slash (rest : List Char) (stops : Stops true ('/' :: rest)) : balance ('/' :: rest) = balance rest := by
  have same : slashAfter rest = rest := by
    fun_cases slashAfter rest with
    | case1 tail => cases stops.line tail rfl
    | case2 tail => rw [stops.block tail rfl, Option.getD_none]
    | case3 => rfl
  rw [balance, charAfter, if_pos rfl, same]
  exact Int.zero_add _

theorem balance_divided (rest : List Char) : balance ('/' :: '=' :: rest) = balance rest := by
  have stops : Stops true ('/' :: '=' :: rest) := by
    refine ⟨?_, ?_, ?_⟩
    · rintro _ _ ⟨rfl⟩
      rfl
    · rintro _ ⟨⟩
    · rintro _ ⟨⟩
  rw [balance_slash _ stops, balance_plain '=' rest (by decide)]

theorem layout_plain (lines : Bool) (c : Char) (blank : isLayout lines c = true) : c ∉ marks := by
  intro member
  have none : isLayout lines c = false := by
    cases lines <;> exact none_of marks _ (by decide) c member
  rw [none] at blank
  cases blank

theorem close_comment_lines (lines : Bool) (rest after : List Char) (closed : closeComment lines rest = some after) :
    closeComment true rest = some after := by
  fun_induction closeComment lines rest with
  | case1 => cases closed
  | case2 rest => exact closed
  | case3 => cases closed
  | case4 c rest other inside hyp =>
    rw [closeComment, Bool.not_true, Bool.false_and, if_neg Bool.false_ne_true]
    · exact hyp closed
    · exact other

theorem balance_skips (lines : Bool) (rest after : List Char) (skips : Skips lines rest after) :
    balance rest = balance after := by
  induction skips with
  | stops => rfl
  | blank c rest after blank _ hyp => rw [balance_plain c rest (layout_plain lines c blank), hyp]
  | line rest after _ _ hyp => rw [balance_line, hyp]
  | block rest middle after closed _ hyp =>
    rw [balance_comment rest middle (close_comment_lines lines rest middle closed), hyp]

theorem balance_skip (lines : Bool) (rest : List Char) (place : Nat) :
    balance rest = balance (skipLayout lines .nothing rest place).1 := by
  exact balance_skips lines rest _ (layout_skips lines rest place)

theorem balance_newline (rest after : List Char) (left : newlineAfter rest = some after) :
    balance rest = balance after := by
  revert left
  fun_cases newlineAfter rest <;> intro left
  case case1 rest =>
    cases left
    rw [balance_plain '\r' _ (by decide), balance_plain '\n' _ (by decide)]
  case case2 rest =>
    cases left
    exact balance_line rest
  case case3 rest => exact balance_comment rest after left
  case case4 c rest _ _ _ ends =>
    cases left
    have blank : isLayout true c = true := by
      rw [isLayout, ends, Bool.and_true, Bool.or_true]
    exact balance_plain c _ (layout_plain true c blank)
  case case5 c rest _ _ _ goes =>
    cases left
  case case6 => cases left

theorem balance_end (rest after : List Char) (left : endAfter rest = some after) : balance rest = balance after := by
  revert left
  fun_cases endAfter rest <;> intro left
  case case1 rest =>
    cases left
    exact balance_plain ';' _ (by decide)
  case case2 rest =>
    cases left
    rfl
  case case3 c rest _ _ => exact balance_newline _ after left
  case case4 =>
    cases left
    rfl

theorem balance_quoted (rest after : List Char) (left : stringEnd rest = some after) : balance rest = balance after := by
  revert left
  fun_cases stringEnd rest <;> intro left
  case case1 rest => exact balance_string '"' rest after rfl left
  case case2 rest => exact balance_string '\'' rest after rfl left
  case case3 => cases left

/-! Expressions that open and close braces. -/

/-- Characters that stand for themselves only in braces, strings, comments and at the end of a line. -/
def special : List Char :=
  '\n' :: marks

/-- Between two counts of open braces an expression opens and closes some. The first flag says that no layout
is skipped between its items, the second that none is left where it begins. -/
inductive Braced (dry : Bool) : Bool → Nat → Nat → Es → Prop
  | word (fresh : Bool) (k : Nat) (cs : List Char) (solid : cs ≠ []) (plain : ∀ c ∈ cs, c ∉ special) :
      Braced dry fresh k k (.text cs)
  | opens (fresh : Bool) (k : Nat) : Braced dry fresh k (k + 1) (Es.lit "\x7b")
  | closes (fresh : Bool) (k : Nat) : Braced dry fresh (k + 1) k (Es.lit "\x7d")
  | char (fresh : Bool) (k : Nat) (member : Char → Bool) (plain : ∀ c ∈ special, member c = false) :
      Braced dry fresh k k (.char member)
  | layout (fresh : Bool) (k : Nat) (lines : Bool) : Braced dry fresh k k (.layout lines)
  | token (fresh : Bool) (k : Nat) (name : Rule) (token : Es.kind name = .token)
      (needs : name = .operator .divide → fresh = true) : Braced dry fresh k k (.rule name)
  | rule (fresh : Bool) (k : Nat) (name : Rule) (other : Es.kind name ≠ .token)
      (inner : name ≠ .program ∧ name ≠ .endOfInput) : Braced dry fresh k k (.rule name)
  | afterLayout (fresh : Bool) (k k' : Nat) (e : Es) (inner : Braced dry true k k' e) :
      Braced dry fresh k k' (.seq (.layout true) e)
  | seq (fresh : Bool) (k k' k'' : Nat) (first second : Es) (left : Braced dry fresh k k' first)
      (right : Braced dry false k' k'' second) : Braced dry fresh k k'' (.seq first second)
  | choice (fresh : Bool) (k k' : Nat) (first second : Es) (left : Braced dry fresh k k' first)
      (right : Braced dry fresh k k' second) : Braced dry fresh k k' (.choice first second)
  | maybe (fresh : Bool) (k : Nat) (item : Es) (inner : Braced dry fresh k k item) : Braced dry fresh k k (.maybe item)
  | star (fresh : Bool) (k : Nat) (item : Es) (inner : Braced dry false k k item) : Braced dry fresh k k (.star item)
  | again (fresh : Bool) (k : Nat) (item : Es) (inner : Braced dry false k k item) : Braced dry fresh k k (.again item)
  | look (fresh : Bool) (k k' : Nat) (item : Es) (inner : Braced dry fresh k k' item) : Braced dry fresh k k (.look item)
  | refuse (fresh : Bool) (k k' : Nat) (item : Es) (inner : Braced dry fresh k k' item) :
      Braced dry fresh k k (.refuse item)
  | statementStart (fresh : Bool) (k : Nat) :
      Braced dry fresh k k (.refuse (.choice (Es.lit "\x7b") (.rule (.keyword .function))))
  | statementEnd (fresh : Bool) (k : Nat) (tight : dry = true) : Braced dry fresh k k Es.statementEnd

/-- The expression has the look of the end of a statement. -/
def Peg.isEnd : Es → Bool
  | .seq (.layout lines) (.choice (.text cs) _) => !lines && cs == [';']
  | _ => false

/-- What has the look of the end of a statement in an expression. -/
def Peg.ends : Es → List Es
  | .seq first second =>
    if (Peg.seq first second).isEnd then [.seq first second] else first.ends ++ second.ends
  | .choice first second => first.ends ++ second.ends
  | .maybe item => item.ends
  | .star item => item.ends
  | .again item => item.ends
  | .look item => item.ends
  | .refuse item => item.ends
  | _ => []

def Peg.isLayout : Es → Bool
  | .layout lines => lines
  | _ => false

/-- The expression has the look of what an expression statement does not begin with. -/
def Peg.isStart : Es → Bool
  | .choice (.text cs) (.rule name) => cs == ['{'] && name == .keyword .function
  | _ => false

/-- The count of open braces behind an expression that closes what it opens, if it is one. -/
def Peg.braces (dry : Bool) : Bool → Nat → Es → Option Nat
  | _, k, .text cs =>
    if cs = ['{'] then some (k + 1)
    else if cs = ['}'] then (if k = 0 then none else some (k - 1))
    else if cs = [] || cs.any special.contains then none
    else some k
  | _, k, .char member => if special.any member then none else some k
  | _, k, .layout _ => some k
  | fresh, k, .rule name =>
    if Es.kind name = .token then (if name = .operator .divide && !fresh then none else some k)
    else if name = .program || name = .endOfInput then none
    else some k
  | fresh, k, .seq first second =>
    if (Peg.seq first second).isEnd then (if dry then some k else none)
    else if first.isLayout then braces dry true k second
    else (braces dry fresh k first).bind fun k' => braces dry false k' second
  | fresh, k, .choice first second =>
    if braces dry fresh k first = braces dry fresh k second then braces dry fresh k first else none
  | fresh, k, .maybe item => if braces dry fresh k item = some k then some k else none
  | _, k, .star item => if braces dry false k item = some k then some k else none
  | _, k, .again item => if braces dry false k item = some k then some k else none
  | fresh, k, .look item => (braces dry fresh k item).map fun _ => k
  | fresh, k, .refuse item => if item.isStart then some k else (braces dry fresh k item).map fun _ => k
  | _, _, _ => none

theorem known_both (first second : Es) (more : List Es) (same : more = first.ends ++ second.ends)
    (known : ∀ last ∈ more, last = Es.statementEnd) :
    (∀ last ∈ first.ends, last = Es.statementEnd) ∧ ∀ last ∈ second.ends, last = Es.statementEnd := by
  rw [same] at known
  exact ⟨fun last member => known last (List.mem_append_left _ member),
    fun last member => known last (List.mem_append_right _ member)⟩

theorem braces_sound (dry fresh : Bool) (k k' : Nat) (e : Es) (braces : e.braces dry fresh k = some k')
    (known : ∀ last ∈ e.ends, last = Es.statementEnd) : Braced dry fresh k k' e := by
  induction e generalizing fresh k k' with
  | text cs =>
    rw [Peg.braces] at braces
    split at braces
    · rename_i opens
      cases braces
      rw [opens]
      exact .opens fresh k
    split at braces
    · rename_i closes
      rw [closes]
      cases k with
      | zero => cases braces
      | succ k =>
        cases braces
        exact .closes fresh k
    split at braces
    · cases braces
    · rename_i plain
      cases braces
      rw [Bool.or_eq_true, not_or, decide_eq_true_iff, Bool.not_eq_true] at plain
      exact .word fresh k cs plain.1 (none_in cs special plain.2)
  | char member =>
    rw [Peg.braces] at braces
    split at braces
    · cases braces
    · rename_i plain
      cases braces
      exact .char fresh k member (none_of special member (Bool.not_eq_true _ ▸ plain))
  | layout lines =>
    cases braces
    exact .layout fresh k lines
  | rule name =>
    rw [Peg.braces] at braces
    split at braces
    · rename_i token
      split at braces
      · cases braces
      · rename_i needs
        cases braces
        refine .token fresh k name token fun divides => ?_
        rw [divides] at needs
        simpa using needs
    · rename_i other
      split at braces
      · cases braces
      · rename_i inner
        cases braces
        rw [Bool.or_eq_true, not_or, decide_eq_true_iff, decide_eq_true_iff] at inner
        exact .rule fresh k name other inner
  | seq first second hyp hyp' =>
    rw [Peg.braces] at braces
    rw [Peg.ends] at known
    split at braces
    · rename_i ends
      rw [if_pos ends] at known
      rw [known _ (List.mem_singleton_self _)]
      cases dry with
      | false => cases braces
      | true =>
        cases braces
        exact .statementEnd fresh k rfl
    rename_i goesOn
    rw [if_neg goesOn] at known
    obtain ⟨left, right⟩ := known_both first second _ rfl known
    split at braces
    · rename_i layout
      have blank : first = .layout true := by
        cases first with
        | layout lines => exact congrArg _ layout
        | _ => cases layout
      rw [blank]
      exact .afterLayout fresh k k' second (hyp' true k k' braces right)
    · obtain ⟨between, one, two⟩ := Option.bind_eq_some_iff.mp braces
      exact .seq fresh k between k' first second (hyp fresh k between one left) (hyp' false between k' two right)
  | choice first second hyp hyp' =>
    rw [Peg.braces] at braces
    obtain ⟨left, right⟩ := known_both first second _ rfl known
    obtain ⟨same, one⟩ := Option.ite_none_right_eq_some.mp braces
    exact .choice fresh k k' first second (hyp fresh k k' one left) (hyp' fresh k k' (same ▸ one) right)
  | maybe item hyp =>
    rw [Peg.braces] at braces
    obtain ⟨inner, ⟨rfl⟩⟩ := Option.ite_none_right_eq_some.mp braces
    exact .maybe fresh k item (hyp fresh k k inner known)
  | star item hyp =>
    rw [Peg.braces] at braces
    obtain ⟨inner, ⟨rfl⟩⟩ := Option.ite_none_right_eq_some.mp braces
    exact .star fresh k item (hyp false k k inner known)
  | again item hyp =>
    rw [Peg.braces] at braces
    obtain ⟨inner, ⟨rfl⟩⟩ := Option.ite_none_right_eq_some.mp braces
    exact .again fresh k item (hyp false k k inner known)
  | look item hyp =>
    rw [Peg.braces] at braces
    obtain ⟨inside, inner, rfl⟩ := Option.map_eq_some_iff.mp braces
    exact .look fresh k inside item (hyp fresh k inside inner known)
  | refuse item hyp =>
    rw [Peg.braces] at braces
    split at braces
    · rename_i start
      cases braces
      have same : item = .choice (Es.lit "\x7b") (.rule (.keyword .function)) := by
        unfold Peg.isStart at start
        split at start
        · rw [Bool.and_eq_true, beq_iff_eq, beq_iff_eq] at start
          rw [start.1, start.2]
          rfl
        · cases start
      rw [same]
      exact .statementStart fresh k
    · obtain ⟨inside, inner, rfl⟩ := Option.map_eq_some_iff.mp braces
      exact .refuse fresh k inside item (hyp fresh k inside inner known)
  | beginning => cases braces
  | ending => cases braces

-- Every rule outside tokens closes the braces that it opens.
theorem rules_braced (name : Rule) (other : Es.kind name ≠ .token) (inner : name ≠ .program ∧ name ≠ .endOfInput) :
    Braced (decide (Es.kind name = .tight)) false 0 0 (Es.body name) := by
  have braces : Es.kind name = .token ∨ name = .program ∨ name = .endOfInput ∨
      ((Es.body name).braces (decide (Es.kind name = .tight)) false 0 = some 0 ∧
        ((Es.body name).ends = [] ∨ (Es.body name).ends = [Es.statementEnd])) := by
    cases name
    all_goals first
      | exact .inl rfl
      | exact .inr (.inl rfl)
      | exact .inr (.inr (.inl rfl))
      | exact .inr (.inr (.inr ⟨by decide +kernel, .inl rfl⟩))
      | exact .inr (.inr (.inr ⟨by decide +kernel, .inr rfl⟩))
  rcases braces with token | program | ending | ⟨braces, ends⟩
  · exact absurd token other
  · exact absurd program inner.1
  · exact absurd ending inner.2
  · refine braces_sound _ _ _ _ _ braces fun last member => ?_
    rcases ends with none | one
    · rw [none] at member
      cases member
    · rw [one] at member
      exact List.mem_singleton.mp member

/-! Matches keep the balance. -/

/-- Tokens without special characters. -/
def plainToken (name : Rule) : Bool :=
  Es.kind name == .token && name != .stringLiteral && name != .operator .divide && name != .assignmentOperator

theorem plain_tokens (name : Rule) (plain : plainToken name = true) :
    Es.kind name = .token ∧ (Es.body name).avoids special plainToken = true := by
  cases name with
  | keyword word => cases word <;> exact ⟨rfl, by decide +kernel⟩
  | operator op =>
    cases op with
    | divide => cases plain
    | _ => exact ⟨rfl, by decide +kernel⟩
  | identifierName | identifier | thisExpression | nullLiteral | booleanLiteral | numericLiteral | postfixOperator
  | unaryOperator => exact ⟨rfl, by decide +kernel⟩
  | _ => cases plain

theorem nothing_barred (bad : List Char) : Barred bad [] :=
  fun _ same => nomatch same

theorem string_matched (mode : Mode) (quiet : Bool) (rest : List Char) (place : Nat) (o : Option (Match Rule))
    (found : Matches ecmascript mode quiet (.rule .stringLiteral) rest place o) :
    o.map Match.rest = stringEnd rest := by
  obtain ⟨p, inner, left, _⟩ := string_leaves .token quiet place token_dry rest
  rw [← left]
  cases p with
  | none => rw [matches_once _ _ _ _ _ _ _ _ found (.ruleFails mode quiet Rule.stringLiteral rest place inner)]
  | some m =>
    rw [matches_once _ _ _ _ _ _ _ _ found (.ruleMatches mode quiet Rule.stringLiteral rest place m inner)]
    rfl

theorem assignment_balanced (cs rest : List Char) (spells : (Es.body .assignmentOperator).Spells cs) :
    balance (cs ++ rest) = balance rest := by
  rcases spells with ⟨_, _, rfl, rfl, rfl⟩ | spells
  · exact balance_stretch _ rest (none_in _ marks (by decide))
  · rcases spells with rfl | rfl | rfl | rfl | rfl | rfl | rfl | rfl | rfl | rfl | rfl
    case inr.inr.inl => exact balance_divided rest
    all_goals exact balance_stretch _ rest (none_in _ marks (by decide))

theorem token_balanced (mode : Mode) (quiet : Bool) (name : Rule) (rest : List Char) (place : Nat) (m : Match Rule)
    (token : Es.kind name = .token) (divides : name = .operator .divide → Stops true rest)
    (found : Matches ecmascript mode quiet (.rule name) rest place (some m)) : balance m.rest = balance rest := by
  by_cases string : name = .stringLiteral
  · subst string
    have left := string_matched mode quiet rest place _ found
    exact (balance_quoted rest m.rest left.symm).symm
  obtain ⟨n, inner, rfl⟩ := rule_matched ecmascript _ _ _ _ _ _ found
  change Matches ecmascript ((Es.kind name).inside mode) quiet (Es.body name) rest place _ at inner
  rw [token] at inner
  change Matches ecmascript .token quiet _ _ _ _ at inner
  obtain ⟨cs, takes, spells⟩ := match_takes ecmascript _ _ _ _ _ _ inner n rfl
  by_cases division : name = .operator .divide
  · subst division
    obtain ⟨_, _, rfl, rfl, rfl⟩ := spells rfl
    have whole : rest = '/' :: n.rest := takes.1
    rw [whole, balance_slash n.rest (whole ▸ divides rfl)]
  by_cases assigns : name = .assignmentOperator
  · subst assigns
    rw [takes.1, assignment_balanced cs n.rest (spells rfl)]
  have plain : plainToken name = true := by
    rw [plainToken, token, bne_iff_ne.mpr string, bne_iff_ne.mpr division, bne_iff_ne.mpr assigns]
    rfl
  obtain ⟨o, _, together⟩ := stretches special [] (nothing_barred special) ecmascript plainToken plain_tokens
    _ _ _ _ _ _ inner rfl (plain_tokens name plain).2 rest place (List.append_nil rest).symm
  obtain ⟨_, _, ⟨ds, _, whole, none⟩, _⟩ := together_some _ o n together
  rw [whole]
  exact (balance_stretch ds n.rest fun c member contra => none c member (List.mem_cons_of_mem _ contra)).symm

theorem skip_stops (lines : Bool) (rest : List Char) (place : Nat) :
    Stops lines (skipLayout lines .nothing rest place).1 := by
  exact skips_stop lines rest _ (layout_skips lines rest place)

theorem balance_mode (mode : Mode) (rest : List Char) (place : Nat) :
    balance (mode.skip rest place).1 = balance rest := by
  cases mode with
  | free => exact (balance_skip true rest place).symm
  | tight => rfl
  | token => rfl

-- What stands where layout was skipped stays there.
theorem mode_stops (mode : Mode) (rest : List Char) (place : Nat) (solid : Stops true rest) :
    Stops true (mode.skip rest place).1 := by
  cases mode with
  | free => exact skip_stops true rest place
  | tight => exact solid
  | token => exact solid

theorem rule_dry (mode : Mode) (name : Rule) (tight : decide (Es.kind name = .tight) = true) :
    ((Es.kind name).inside mode).Dry := by
  rw [of_decide_eq_true tight]
  exact tight_dry

/-- What is matched between two counts of open braces changes the balance by their difference. -/
theorem match_balanced (mode : Mode) (quiet : Bool) (e : Es) (rest : List Char) (place : Nat) (o : Option (Match Rule))
    (found : Matches ecmascript mode quiet e rest place o) :
    ∀ dry fresh k k', Braced dry fresh k k' e → (dry = true → mode.Dry) → (fresh = true → Stops true rest) →
      ∀ m, o = some m → balance m.rest + k' = balance rest + k := by
  induction found with
  | token mode quiet e rest place isToken =>
    intro dry fresh k k' braced _ _ m taken
    cases braced with
    | word _ _ cs solid plain =>
      obtain ⟨left, takes, rfl⟩ := Option.map_eq_some_iff.mp taken
      rw [(take_text_takes cs rest place left takes).1,
        balance_stretch cs left.1 fun c member contra => plain c member (List.mem_cons_of_mem _ contra)]
    | opens =>
      obtain ⟨left, takes, rfl⟩ := Option.map_eq_some_iff.mp taken
      rw [(take_text_takes _ rest place left takes).1]
      change _ = balance ('{' :: left.1) + _
      rw [(balance_brace left.1).1]
      push_cast
      omega
    | closes =>
      obtain ⟨left, takes, rfl⟩ := Option.map_eq_some_iff.mp taken
      rw [(take_text_takes _ rest place left takes).1]
      change _ = balance ('}' :: left.1) + _
      rw [(balance_brace left.1).2]
      push_cast
      omega
    | char _ _ member plain =>
      cases rest with
      | nil => cases taken
      | cons c rest =>
        obtain ⟨fits, same⟩ := Option.ite_none_right_eq_some.mp taken
        cases same
        rw [balance_plain c rest]
        intro contra
        rw [plain c (List.mem_cons_of_mem _ contra)] at fits
        cases fits
    | layout _ _ lines =>
      cases taken
      rw [← balance_skip]
    | _ => cases isToken
  | ruleFails | seqFails =>
    intro _ _ _ _ _ _ _ m none
    cases none
  | ruleMatches mode quiet name rest place n inner hyp =>
    intro dry fresh k k' braced _ stops m same
    cases same
    cases braced with
    | token _ _ _ token needs =>
      rw [token_balanced mode quiet name rest place _ token (fun same => stops (needs same))
        (.ruleMatches mode quiet name rest place n inner)]
    | rule _ _ _ other inner =>
      have kept := hyp _ false 0 0 (rules_braced name other inner) (rule_dry mode name)
        (fun contra => nomatch contra) n rfl
      dsimp only
      omega
  | seqMatches mode quiet first second rest place n o left right hypLeft hypRight =>
    intro dry fresh k k' braced isDry stops m same
    obtain ⟨last, rfl, rfl⟩ := Option.map_eq_some_iff.mp same
    have skips := balance_mode mode n.rest n.place
    cases braced with
    | afterLayout _ _ _ _ inner =>
      have gone : n = ⟨_, _, []⟩ :=
        Option.some.inj (matches_once _ _ _ _ _ _ _ _ left (.token mode quiet (.layout true) rest place rfl))
      have solid : Stops true n.rest := by
        rw [gone]
        exact skip_stops true rest place
      have kept := hypRight dry true k k' inner isDry (fun _ => mode_stops mode _ _ solid) last rfl
      have before : balance n.rest = balance rest := by
        rw [gone]
        exact (balance_skip true rest place).symm
      dsimp only
      omega
    | seq _ _ between _ _ _ one two =>
      have before := hypLeft dry fresh k between one isDry stops n rfl
      have after := hypRight dry false between k' two isDry (fun contra => nomatch contra) last rfl
      dsimp only
      omega
    | statementEnd _ _ tight =>
      obtain ⟨next, ended⟩ : ∃ o, Matches ecmascript mode quiet Es.statementEnd rest place o ∧
          o.map Match.rest = endAfter (skipLayout false .nothing rest place).1 :=
        (statement_end_leaves mode quiet place (isDry tight) rest).imp fun o leaves => ⟨leaves.1, leaves.2.1⟩
      have whole := Matches.seqMatches mode quiet _ _ rest place n _ left right
      cases matches_once _ _ _ _ _ _ _ _ whole ended.1
      have kept := balance_end _ _ ended.2.symm
      rw [balance_skip false rest place, kept]
  | choiceFirst mode quiet first second rest place n left hyp =>
    intro dry fresh k k' braced isDry stops m same
    cases braced with
    | choice _ _ _ _ _ one _ => exact hyp dry fresh k k' one isDry stops m same
  | choiceSecond mode quiet first second rest place o left right _ hyp =>
    intro dry fresh k k' braced isDry stops m same
    cases braced with
    | choice _ _ _ _ _ _ two => exact hyp dry fresh k k' two isDry stops m same
  | maybe mode quiet item rest place o inner hyp =>
    intro dry fresh k k' braced isDry stops m same
    cases same
    cases braced with
    | maybe _ _ _ inside =>
      cases o with
      | none => rfl
      | some n => exact hyp dry fresh k k inside isDry stops n rfl
  | starEnds mode quiet item rest place =>
    intro dry fresh k k' braced _ _ m same
    cases same
    cases braced
    rfl
  | againEnds mode quiet item rest place =>
    intro dry fresh k k' braced _ _ m same
    cases same
    cases braced
    rfl
  | starMatches mode quiet item rest place n last inner others hypInner hypOthers =>
    intro dry fresh k k' braced isDry _ m same
    cases same
    cases braced with
    | star _ _ _ inside =>
      have one := hypInner dry false k k inside isDry (fun contra => nomatch contra) n rfl
      have more := hypOthers dry false k k (.again false k item inside) isDry (fun contra => nomatch contra) last rfl
      exact more.trans one
  | againMatches mode quiet item rest place n last inner others hypInner hypOthers =>
    intro dry fresh k k' braced isDry _ m same
    cases same
    have skips := balance_mode mode rest place
    cases braced with
    | again _ _ _ inside =>
      have one := hypInner dry false k k inside isDry (fun contra => nomatch contra) n rfl
      have more := hypOthers dry false k k (.again false k item inside) isDry (fun contra => nomatch contra) last rfl
      rw [skips] at one
      exact more.trans one
  | look mode quiet item rest place o inner hyp =>
    intro dry fresh k k' braced _ _ m same
    obtain ⟨_, _, rfl⟩ := Option.map_eq_some_iff.mp same
    cases braced
    rfl
  | refuse mode quiet item rest place o inner hyp =>
    intro dry fresh k k' braced _ _ m same
    split at same
    · cases same
    · cases same
      cases braced <;> rfl

end Ecma.Grammar
