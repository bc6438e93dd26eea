import Ecma.Proofs.Grammar.Brace

set_option autoImplicit false

/-!
A piece of text inside another one. In front of a line end and a closing brace whose opening one stands before
the piece, whatever is tried does the same as at the end of the text.
-/

namespace Ecma.Grammar

open Ecma.Text

/-- A text as it stands alone and with a line end and more text behind it; the line end may be gone at the end. -/
def Trails (beyond rest rest' : List Char) : Prop :=
  ∃ tail, rest' = rest ++ tail ∧ (tail = '\n' :: beyond ∨ (rest = [] ∧ tail = beyond))

section

variable (beyond : List Char)

theorem trails_before (rest : List Char) : Trails beyond rest (rest ++ '\n' :: beyond) :=
  ⟨_, rfl, .inl rfl⟩

theorem trails_gone : Trails beyond [] beyond :=
  ⟨beyond, rfl, .inr ⟨rfl, rfl⟩⟩

-- What stands at the front of both is taken from both.
theorem trails_take (cs rest rest' : List Char) (tail : List Char)
    (stands : tail = '\n' :: beyond ∨ (cs ++ rest = [] ∧ tail = beyond)) (same : rest' = rest ++ tail) :
    Trails beyond rest rest' := by
  refine ⟨tail, same, stands.imp id fun spent => ⟨?_, spent.2⟩⟩
  exact (List.append_eq_nil_iff.mp spent.1).2

/-! Layout. -/

theorem close_comment_before (lines : Bool) (rest after more : List Char) (closed : closeComment lines rest = some after) :
    closeComment lines (rest ++ more) = some (after ++ more) := by
  fun_induction closeComment lines rest with
  | case1 => cases closed
  | case2 rest =>
    cases closed
    rfl
  | case3 => cases closed
  | case4 c rest other inside hyp =>
    have goes := hyp closed
    rw [List.cons_append, closeComment, if_neg inside, goes]
    rintro tail rfl same
    cases rest with
    | nil => cases closed
    | cons d rest =>
      cases same
      exact other rest rfl rfl

theorem close_comment_beyond (lines : Bool) (rest : List Char) (opened : closeComment lines rest = none)
    (silent : closeComment lines beyond = none) : closeComment lines (rest ++ '\n' :: beyond) = none := by
  fun_induction closeComment lines rest with
  | case1 =>
    rw [List.nil_append, closeComment, silent, ite_self]
    rintro _ ⟨⟩
  | case2 rest => cases opened
  | case3 c rest other ends =>
    rw [List.cons_append, closeComment, if_pos ends]
    rintro tail rfl same
    cases rest with
    | nil => cases same
    | cons d rest =>
      cases same
      exact other rest rfl rfl
  | case4 c rest other inside hyp =>
    have goes := hyp opened
    rw [List.cons_append, closeComment, if_neg inside, goes]
    rintro tail rfl same
    cases rest with
    | nil => cases same
    | cons d rest =>
      cases same
      exact other rest rfl rfl

theorem line_after_before (rest : List Char) : lineAfter (rest ++ '\n' :: beyond) = lineAfter rest ++ '\n' :: beyond := by
  induction rest with
  | nil => rfl
  | cons c rest hyp =>
    rw [List.cons_append, lineAfter, List.dropWhile_cons, lineAfter, List.dropWhile_cons]
    cases isLineTerminator c with
    | true => rfl
    | false => exact hyp

variable (solid : ∀ lines, Stops lines beyond)

include solid in
/-- Layout is skipped alike, unless a comment that is open where it stops is closed beyond. -/
theorem skips_before (lines : Bool) (rest after : List Char) (skips : Skips lines rest after)
    (safe : ∀ inside, after = '/' :: '*' :: inside → closeComment lines (inside ++ '\n' :: beyond) = none) :
    ∃ after', Skips lines (rest ++ '\n' :: beyond) after' ∧ Trails beyond after after' := by
  induction skips with
  | stops rest stops =>
    cases rest with
    | nil =>
      cases lines with
      | true => exact ⟨beyond, .blank '\n' beyond beyond rfl (.stops beyond (solid true)), trails_gone beyond⟩
      | false =>
        refine ⟨_, .stops _ ⟨?_, fun _ _ => rfl, ?_⟩, trails_before beyond []⟩
        · rintro _ _ ⟨rfl⟩
          rfl
        · rintro _ ⟨⟩
    | cons c rest =>
      refine ⟨_, .stops _ ⟨?_, ?_, ?_⟩, trails_before beyond (c :: rest)⟩
      · rintro _ _ ⟨rfl⟩
        exact stops.solid c rest rfl
      · intro tail same
        cases rest with
        | nil => cases same
        | cons d rest =>
          cases same
          exact stops.line rest rfl
      · intro tail same
        cases rest with
        | nil => cases same
        | cons d rest =>
          cases same
          exact safe rest rfl
  | blank c rest after blank _ hyp =>
    obtain ⟨after', skips, trails⟩ := hyp safe
    exact ⟨after', .blank c _ after' blank skips, trails⟩
  | line rest after allowed _ hyp =>
    obtain ⟨after', skips, trails⟩ := hyp safe
    rw [← line_after_before] at skips
    exact ⟨after', .line _ after' allowed skips, trails⟩
  | block rest middle after closed _ hyp =>
    obtain ⟨after', skips, trails⟩ := hyp safe
    exact ⟨after', .block _ _ after' (close_comment_before lines rest middle _ closed) skips, trails⟩

include solid in
theorem skip_trails (lines : Bool) (rest rest' : List Char) (place place' : Nat) (trails : Trails beyond rest rest')
    (safe : ∀ inside, (skipLayout lines .nothing rest place).1 = '/' :: '*' :: inside →
      closeComment lines (inside ++ '\n' :: beyond) = none) :
    Trails beyond (skipLayout lines .nothing rest place).1 (skipLayout lines .nothing rest' place').1 := by
  obtain ⟨tail, rfl, rfl | ⟨rfl, rfl⟩⟩ := trails
  · obtain ⟨after', skips, trails⟩ := skips_before beyond solid lines rest _ (layout_skips lines rest place) safe
    rw [skip_is lines _ after' place' skips]
    exact trails
  · rw [skip_is lines [] [] place (.stops [] (nothing_stops lines)), List.nil_append, skip_is lines tail tail place' (.stops tail (solid lines))]
    exact trails_gone tail

end

/-! Parse trees without places. -/

/-- What a node is, wherever it stands: its rule, its text if it is a token, and what its parts are. -/
inductive Shape where
  | mk (rule : Rule) (chars : List Char) (parts : List Shape)

def Node.shape : Node Rule → Shape
  | .mk name start stop input parts =>
    .mk name (if Es.kind name = .token then charsBefore input (stop - start) else []) (shapes parts)
where
  shapes : List (Node Rule) → List Shape
    | [] => []
    | node :: rest => node.shape :: shapes rest

theorem shapes_map (nodes : List (Node Rule)) : Node.shape.shapes nodes = nodes.map Node.shape := by
  induction nodes with
  | nil => rfl
  | cons node rest hyp => rw [Node.shape.shapes, List.map_cons, hyp]

theorem shape_other (name : Rule) (start stop start' stop' : Nat) (input input' : List Char)
    (parts parts' : List (Node Rule)) (other : Es.kind name ≠ .token)
    (same : parts.map Node.shape = parts'.map Node.shape) :
    (Node.mk name start stop input parts).shape = (Node.mk name start' stop' input' parts').shape := by
  rw [Node.shape, Node.shape, if_neg other, if_neg other, shapes_map, shapes_map, same]

-- The text of what is matched.
theorem match_chars (mode : Mode) (quiet : Bool) (e : Es) (rest : List Char) (place : Nat) (m : Match Rule)
    (found : Matches ecmascript mode quiet e rest place (some m)) :
    rest = charsBefore rest (m.place - place) ++ m.rest := by
  obtain ⟨cs, takes, _⟩ := match_takes ecmascript _ _ _ _ _ _ found m rfl
  rw [takes.2, Nat.add_sub_cancel_left]
  conv => rhs; rw [takes.1, chars_before_taken]
  exact takes.1

/-! Before a closing brace. -/

/-- Two matches leave the same in front of a closing brace, and nodes of the same shapes. -/
def Keeps (m m' : Match Rule) : Prop :=
  Trails ['}'] m.rest m'.rest ∧ m.nodes.map Node.shape = m'.nodes.map Node.shape

theorem brace_stops (lines : Bool) : Stops lines ['}'] := by
  refine ⟨?_, ?_, ?_⟩
  · rintro _ _ ⟨rfl⟩
    cases lines <;> rfl
  · rintro _ ⟨⟩
  · rintro _ ⟨⟩

theorem brace_balance : balance ['}'] = -1 := by
  rw [(balance_brace []).2, balance]
  rfl

theorem brace_silent (lines : Bool) : closeComment lines ['}'] = none := by
  cases lines <;> rfl

theorem skip_keeps (lines : Bool) (rest rest' : List Char) (place place' : Nat) (trails : Trails ['}'] rest rest') :
    Trails ['}'] (skipLayout lines .nothing rest place).1 (skipLayout lines .nothing rest' place').1 := by
  refine skip_trails ['}'] brace_stops lines rest rest' place place' trails fun inside same => ?_
  have stops := skip_stops lines rest place
  exact close_comment_beyond ['}'] lines inside (stops.block inside same) (brace_silent lines)

theorem mode_keeps (mode : Mode) (rest rest' : List Char) (place place' : Nat) (trails : Trails ['}'] rest rest') :
    Trails ['}'] (mode.skip rest place).1 (mode.skip rest' place').1 := by
  cases mode with
  | free => exact skip_keeps true rest rest' place place' trails
  | tight => exact trails
  | token => exact trails

-- What is behind bars no token, and no text without special characters.
theorem trails_barred (bad : List Char) (line : '\n' ∈ bad) (brace : '}' ∈ bad) (tail rest : List Char)
    (stands : tail = '\n' :: ['}'] ∨ (rest = [] ∧ tail = ['}'])) : Barred bad tail := by
  intro c head
  rcases stands with rfl | ⟨rfl, rfl⟩ <;> cases head <;> assumption

-- Where a string goes on in front of the brace, or that it comes to no end.
theorem string_after_brace (quote : Char) (quotes : isQuote quote = true) (rest : List Char) :
    (∃ c after, stringAfter quote rest = c :: after ∧
      stringAfter quote (rest ++ ['\n', '}']) = c :: (after ++ ['\n', '}'])) ∨
      ((∀ after, stringAfter quote rest ≠ quote :: after) ∧
        ∀ after, stringAfter quote (rest ++ ['\n', '}']) ≠ quote :: after) := by
  have other (c : Char) (plain : isQuote c = false) : c ≠ quote := by
    rintro rfl
    rw [quotes] at plain
    cases plain
  have last : stringAfter quote ['}'] = [] := by
    rw [stringAfter, beq_eq_false_iff_ne.mpr (other '}' rfl)]
    · rfl
    · rintro ⟨⟩
    · rintro _ ⟨⟩
    · rintro _ _ ⟨⟩
  fun_induction stringAfter quote rest with
  | case1 =>
    have line : stringAfter quote ['\n', '}'] = ['\n', '}'] := by
      rw [stringAfter]
      · exact if_pos (Bool.or_true _)
      · rintro ⟨⟩
      · rintro _ ⟨⟩
      · rintro _ _ ⟨⟩
    refine .inr ⟨by rintro _ ⟨⟩, fun after same => ?_⟩
    rw [List.nil_append, line] at same
    exact other '\n' rfl (List.cons.inj same).1
  | case2 =>
    refine .inr ⟨fun after same => other '\\' rfl (List.cons.inj same).1, fun after same => ?_⟩
    change stringAfter quote ('\\' :: '\n' :: ['}']) = _ at same
    rw [stringAfter, last] at same
    · cases same
    · rintro _ ⟨⟩
  | case3 rest hyp => exact hyp
  | case4 c rest single hyp =>
    by_cases lone : c = '\r' ∧ rest = []
    · obtain ⟨rfl, rfl⟩ := lone
      refine .inr ⟨by rintro _ ⟨⟩, fun after same => ?_⟩
      change stringAfter quote ('\\' :: '\r' :: '\n' :: ['}']) = _ at same
      rw [stringAfter, last] at same
      cases same
    · have step : stringAfter quote ('\\' :: c :: rest ++ ['\n', '}']) = stringAfter quote (rest ++ ['\n', '}']) := by
        rw [List.cons_append, List.cons_append, stringAfter]
        rintro tail rfl same
        cases rest with
        | nil => exact lone ⟨rfl, rfl⟩
        | cons d rest =>
          cases same
          exact single rest rfl rfl
      rw [step]
      exact hyp
  | case5 c rest alone twice single ends =>
    have plain : c ≠ '\\' := no_escape c rest alone single
    refine .inl ⟨c, rest, rfl, ?_⟩
    rw [List.cons_append, stringAfter, if_pos ends]
    · exact fun same => absurd same plain
    · exact fun _ same => absurd same plain
    · exact fun _ _ same => absurd same plain
  | case6 c rest alone twice single goes hyp =>
    have plain : c ≠ '\\' := no_escape c rest alone single
    have step : stringAfter quote (c :: rest ++ ['\n', '}']) = stringAfter quote (rest ++ ['\n', '}']) := by
      rw [List.cons_append, stringAfter, if_neg goes]
      · exact fun same => absurd same plain
      · exact fun _ same => absurd same plain
      · exact fun _ _ same => absurd same plain
    rw [step]
    exact hyp

theorem close_string_brace (quote : Char) (quotes : isQuote quote = true) (rest : List Char) :
    closeString quote (rest ++ ['\n', '}']) = (closeString quote rest).map (· ++ ['\n', '}']) := by
  have never (cs : List Char) (other : ∀ after, stringAfter quote cs ≠ quote :: after) : closeString quote cs = none := by
    rw [closeString]
    split
    · rename_i c after is
      exact if_neg fun same => other after (by rw [is, same])
    · rfl
  rcases string_after_brace quote quotes rest with ⟨c, after, alone, before⟩ | ⟨alone, before⟩
  · rw [closeString, closeString, alone, before]
    dsimp only
    by_cases same : c = quote
    · rw [if_pos same, if_pos same]
      rfl
    · rw [if_neg same, if_neg same]
      rfl
  · rw [never _ alone, never _ before]
    rfl

/-! Tokens before the brace. -/

/-- Tokens other than strings, which take no line end and no brace. -/
def otherToken (name : Rule) : Bool :=
  Es.kind name == .token && name != .stringLiteral

theorem other_tokens (name : Rule) (other : otherToken name = true) :
    Es.kind name = .token ∧ (Es.body name).avoids ['\n', '}'] otherToken = true := by
  cases name with
  | keyword word => cases word <;> exact ⟨rfl, by decide +kernel⟩
  | operator op => cases op <;> exact ⟨rfl, by decide +kernel⟩
  | identifierName | identifier | thisExpression | nullLiteral | booleanLiteral | numericLiteral | postfixOperator
  | unaryOperator | assignmentOperator => exact ⟨rfl, by decide +kernel⟩
  | _ => cases other

/-- Two matches of a token take the same, with this tail behind the one. -/
def SameToken (rest tail : List Char) (m m' : Match Rule) : Prop :=
  (∃ cs, rest = cs ++ m.rest) ∧ m'.rest = m.rest ++ tail ∧ m.nodes = [] ∧ m'.nodes = []

theorem string_token (quiet : Bool) (rest tail : List Char) (place place' : Nat) (o' : Option (Match Rule))
    (stands : tail = '\n' :: ['}'] ∨ (rest = [] ∧ tail = ['}']))
    (found : Matches ecmascript .token quiet (Es.body .stringLiteral) (rest ++ tail) place' o') :
    ∃ o, Matches ecmascript .token quiet (Es.body .stringLiteral) rest place o ∧
      Together (SameToken rest tail) o o' := by
  obtain ⟨o, alone, left, silent⟩ := string_leaves .token quiet place token_dry rest
  obtain ⟨p, before, left', silent'⟩ := string_leaves .token quiet place' token_dry (rest ++ tail)
  cases matches_once _ _ _ _ _ _ _ _ found before
  have same : stringEnd (rest ++ tail) = (stringEnd rest).map (· ++ tail) := by
    rcases stands with rfl | ⟨rfl, rfl⟩
    · fun_cases stringEnd rest with
      | case1 rest => exact close_string_brace '"' rfl rest
      | case2 rest => exact close_string_brace '\'' rfl rest
      | case3 rest double single =>
        rw [stringEnd]
        · rfl
        · rintro after same
          cases rest with
          | nil => cases same
          | cons c rest =>
            cases same
            exact double rest rfl
        · rintro after same
          cases rest with
          | nil => cases same
          | cons c rest =>
            cases same
            exact single rest rfl
    · rfl
  rw [same, ← left] at left'
  refine ⟨o, alone, ?_⟩
  cases o with
  | none =>
    cases o' with
    | none => trivial
    | some m' => cases left'
  | some m =>
    cases o' with
    | none => cases left'
    | some m' =>
      exact ⟨⟨_, match_chars _ _ _ _ _ m alone⟩, Option.some.inj left', silent m rfl, silent' m' rfl⟩

/-- Two matches take the same, with this tail behind the one, and leave nodes of the same shapes. -/
def SameMatch (rest tail : List Char) (m m' : Match Rule) : Prop :=
  (∃ cs, rest = cs ++ m.rest) ∧ m'.rest = m.rest ++ tail ∧ m.nodes.map Node.shape = m'.nodes.map Node.shape

-- A token is the same node if its body takes the same.
theorem token_same (mode : Mode) (quiet : Bool) (name : Rule) (rest tail : List Char) (place place' : Nat)
    (o' : Option (Match Rule))
    (alike : ∀ p', Matches ecmascript ((Es.kind name).inside mode) quiet (Es.body name) (rest ++ tail) place' p' →
      ∃ p, Matches ecmascript ((Es.kind name).inside mode) quiet (Es.body name) rest place p ∧
        Together (SameToken rest tail) p p')
    (found : Matches ecmascript mode quiet (.rule name) (rest ++ tail) place' o') :
    ∃ o, Matches ecmascript mode quiet (.rule name) rest place o ∧ Together (SameMatch rest tail) o o' := by
  cases found with
  | token _ _ _ _ _ isToken => cases isToken
  | ruleFails _ _ _ _ _ inner =>
    obtain ⟨p, alone, together⟩ := alike none inner
    cases together_none _ p together
    exact ⟨none, .ruleFails _ _ _ _ _ alone, trivial⟩
  | ruleMatches _ _ _ _ _ m' inner =>
    obtain ⟨p, alone, together⟩ := alike (some m') inner
    obtain ⟨m, rfl, taken, left, silent, silent'⟩ := together_some _ p m' together
    refine ⟨_, .ruleMatches _ _ _ _ _ m alone, taken, left, ?_⟩
    cases (ecmascript.kind name).counts mode && !quiet with
    | false => rfl
    | true =>
      have one := match_chars _ _ _ _ _ m alone
      have two := match_chars _ _ _ _ _ m' inner
      have chars : charsBefore rest (m.place - place) = charsBefore (rest ++ tail) (m'.place - place') := by
        refine (List.append_left_inj m'.rest).mp ?_
        rw [← two, left, ← List.append_assoc, ← one]
      rw [if_pos rfl, if_pos rfl, List.map_cons, List.map_cons, Node.shape, Node.shape, chars, silent, silent']

theorem plain_same (bad : List Char) (given : Rule → Bool)
    (tokens : ∀ name, given name = true → Es.kind name = .token ∧ (Es.body name).avoids bad given = true)
    (mode : Mode) (quiet : Bool) (name : Rule) (plain : given name = true) (rest tail : List Char) (place place' : Nat)
    (o' : Option (Match Rule)) (barred : Barred bad tail)
    (found : Matches ecmascript mode quiet (.rule name) (rest ++ tail) place' o') :
    ∃ o, Matches ecmascript mode quiet (.rule name) rest place o ∧ Together (SameMatch rest tail) o o' := by
  obtain ⟨token, avoids⟩ := tokens name plain
  refine token_same mode quiet name rest tail place place' o' (fun p' inner => ?_) found
  rw [token] at inner ⊢
  obtain ⟨p, alone, together⟩ := stretches bad tail barred ecmascript given tokens _ _ _ _ _ _ inner rfl avoids rest
    place rfl
  refine ⟨p, alone, ?_⟩
  cases p' with
  | none =>
    cases together_none _ p together
    trivial
  | some m' =>
    obtain ⟨m, rfl, stretch⟩ := together_some _ p m' together
    exact ⟨⟨_, stretch.1.choose_spec.1⟩, stretch_left _ tail rest m m' stretch, stretch.2⟩

theorem token_keeps (mode : Mode) (quiet : Bool) (name : Rule) (rest rest' : List Char) (place place' : Nat)
    (o' : Option (Match Rule)) (token : Es.kind name = .token) (trails : Trails ['}'] rest rest')
    (found : Matches ecmascript mode quiet (.rule name) rest' place' o') :
    ∃ o, Matches ecmascript mode quiet (.rule name) rest place o ∧ Together Keeps o o' := by
  obtain ⟨tail, rfl, stands⟩ := trails
  have barred := trails_barred ['\n', '}'] List.mem_cons_self (List.mem_cons_of_mem _ List.mem_cons_self) tail rest stands
  have alike : ∃ o, Matches ecmascript mode quiet (.rule name) rest place o ∧ Together (SameMatch rest tail) o o' := by
    by_cases string : name = .stringLiteral
    · subst string
      exact token_same mode quiet .stringLiteral rest tail place place' o'
        (fun p' inner => string_token quiet rest tail place place' p' stands inner) found
    · have other : otherToken name = true := by
        rw [otherToken, token, bne_iff_ne.mpr string]
        rfl
      exact plain_same ['\n', '}'] otherToken other_tokens mode quiet name other rest tail place place' o' barred found
  obtain ⟨o, alone, together⟩ := alike
  refine ⟨o, alone, ?_⟩
  cases o' with
  | none =>
    cases together_none _ o together
    trivial
  | some m' =>
    obtain ⟨m, rfl, ⟨cs, taken⟩, left, shapes⟩ := together_some _ o m' together
    exact ⟨trails_take ['}'] cs m.rest m'.rest tail (taken ▸ stands) left, shapes⟩

/-! Ends of statements before the brace. -/

theorem comment_before_brace (lines : Bool) (rest : List Char) :
    closeComment lines (rest ++ ['\n', '}']) = (closeComment lines rest).map (· ++ ['\n', '}']) := by
  cases closed : closeComment lines rest with
  | none => exact close_comment_beyond ['}'] lines rest closed (brace_silent lines)
  | some after => exact close_comment_before lines rest after _ closed

theorem newline_before_brace (rest : List Char) (other : rest ≠ ['\r']) (solid : rest ≠ []) :
    newlineAfter (rest ++ ['\n', '}']) = (newlineAfter rest).map (· ++ ['\n', '}']) := by
  fun_cases newlineAfter rest with
  | case1 rest => rfl
  | case2 rest => exact congrArg some (line_after_before ['}'] rest)
  | case3 rest => exact comment_before_brace true rest
  | case4 c rest returns line block ends =>
    rw [List.cons_append, newlineAfter, if_pos ends]
    · rfl
    · rintro tail rfl same
      cases rest with
      | nil => exact other rfl
      | cons d rest =>
        cases same
        exact returns rest rfl rfl
    · rintro tail rfl same
      cases ends
    · rintro tail rfl same
      cases ends
  | case5 c rest returns line block goes =>
    rw [List.cons_append, newlineAfter, if_neg goes]
    · rfl
    · rintro tail rfl same
      exact goes rfl
    · rintro tail rfl same
      cases rest with
      | nil => cases same
      | cons d rest =>
        cases same
        exact line rest rfl rfl
    · rintro tail rfl same
      cases rest with
      | nil => cases same
      | cons d rest =>
        cases same
        exact block rest rfl rfl
  | case6 => exact absurd rfl solid

-- A line end in front of the brace ends a statement that would end with the text.
theorem end_keeps (rest rest' : List Char) (trails : Trails ['}'] rest rest') :
    (endAfter rest' = none → endAfter rest = none) ∧
      ∀ after', endAfter rest' = some after' → ∃ after, endAfter rest = some after ∧ Trails ['}'] after after' := by
  obtain ⟨tail, rfl, rfl | ⟨rfl, rfl⟩⟩ := trails
  · have otherwise (same : endAfter (rest ++ ['\n', '}']) = (endAfter rest).map (· ++ ['\n', '}'])) :
        (endAfter (rest ++ ['\n', '}']) = none → endAfter rest = none) ∧ ∀ after',
          endAfter (rest ++ ['\n', '}']) = some after' → ∃ after, endAfter rest = some after ∧ Trails ['}'] after after' := by
      rw [same]
      refine ⟨Option.map_eq_none_iff.mp, fun after' found => ?_⟩
      obtain ⟨after, left, rfl⟩ := Option.map_eq_some_iff.mp found
      exact ⟨after, left, trails_before ['}'] after⟩
    by_cases nothing : rest = []
    · subst nothing
      refine ⟨fun contra => (nomatch contra), ?_⟩
      rintro after' ⟨rfl⟩
      exact ⟨[], rfl, trails_gone ['}']⟩
    by_cases return' : rest = ['\r']
    · subst return'
      refine ⟨fun contra => (nomatch contra), ?_⟩
      rintro after' ⟨rfl⟩
      exact ⟨[], rfl, trails_gone ['}']⟩
    have newline := newline_before_brace rest return' nothing
    refine otherwise ?_
    fun_cases endAfter rest with
    | case1 rest => rfl
    | case2 rest => rfl
    | case3 c rest semicolon closing =>
      rw [List.cons_append, endAfter]
      · exact newline
      · exact semicolon
      · exact closing
    | case4 => exact absurd rfl nothing
  · refine ⟨fun contra => (nomatch contra), ?_⟩
    rintro after' ⟨rfl⟩
    exact ⟨[], rfl, trails_gone ['}']⟩

theorem statement_end_keeps (mode : Mode) (quiet : Bool) (dry : mode.Dry) (rest rest' : List Char) (place place' : Nat)
    (o' : Option (Match Rule)) (trails : Trails ['}'] rest rest')
    (found : Matches ecmascript mode quiet Es.statementEnd rest' place' o') :
    ∃ o, Matches ecmascript mode quiet Es.statementEnd rest place o ∧ Together Keeps o o' := by
  obtain ⟨o, alone, left, silent⟩ := statement_end_leaves mode quiet place dry rest
  obtain ⟨p, before, left', silent'⟩ := statement_end_leaves mode quiet place' dry rest'
  cases matches_once _ _ _ _ _ _ _ _ found before
  obtain ⟨fails, ends⟩ := end_keeps _ _ (skip_keeps false rest rest' place place' trails)
  refine ⟨o, alone, ?_⟩
  cases o' with
  | none =>
    rw [fails left'.symm] at left
    cases o with
    | none => trivial
    | some m => cases left
  | some m' =>
    obtain ⟨after, is, trails⟩ := ends m'.rest left'.symm
    rw [is] at left
    obtain ⟨m, rfl, rfl⟩ := Option.map_eq_some_iff.mp left
    refine ⟨trails, ?_⟩
    rw [silent m rfl, silent' m' rfl]

/-! Everything before the brace. -/

theorem text_keeps (mode : Mode) (quiet : Bool) (cs rest rest' : List Char) (place place' : Nat) (solid : cs ≠ [])
    (plain : ∀ c ∈ cs, c ∉ ['\n', '}']) (trails : Trails ['}'] rest rest') :
    ∃ o, Matches ecmascript mode quiet (.text cs) rest place o ∧
      Together Keeps o ((Peg.text cs : Es).token? rest' place') := by
  obtain ⟨tail, rfl, stands⟩ := trails
  have barred := trails_barred ['\n', '}'] List.mem_cons_self (List.mem_cons_of_mem _ List.mem_cons_self) tail rest stands
  refine ⟨_, .token _ _ _ _ _ rfl, ?_⟩
  rw [Peg.token?, Peg.token?, take_text_before ['\n', '}'] tail barred cs rest place' solid plain]
  cases taken : takeText cs rest place with
  | none =>
    have fails : takeText cs rest place' = none :=
      take_text_none cs rest place' <| by
        rintro ⟨left, whole⟩
        rw [← whole, take_text_whole] at taken
        cases taken
    rw [fails]
    trivial
  | some left =>
    have whole := (take_text_takes cs rest place left taken).1
    rw [whole, take_text_whole]
    exact ⟨trails_take ['}'] cs _ _ tail (whole ▸ stands) rfl, rfl⟩

theorem char_keeps (mode : Mode) (quiet : Bool) (member : Char → Bool) (rest rest' : List Char) (place place' : Nat)
    (line : member '\n' = false) (brace : member '}' = false) (trails : Trails ['}'] rest rest') :
    ∃ o, Matches ecmascript mode quiet (.char member) rest place o ∧
      Together Keeps o ((Peg.char member : Es).token? rest' place') := by
  obtain ⟨tail, rfl, stands⟩ := trails
  refine ⟨_, .token _ _ _ _ _ rfl, ?_⟩
  cases rest with
  | nil =>
    rcases stands with rfl | ⟨_, rfl⟩
    · rw [List.nil_append, Peg.token?, Peg.token?, line]
      trivial
    · rw [List.nil_append, Peg.token?, Peg.token?, brace]
      trivial
  | cons c rest =>
    rw [List.cons_append, Peg.token?, Peg.token?]
    cases member c with
    | false => trivial
    | true => exact ⟨trails_take ['}'] [c] rest _ tail stands rfl, rfl⟩

-- What an expression statement must not begin with is the same.
theorem statement_start_keeps (mode : Mode) (rest rest' : List Char) (place place' : Nat) (o' : Option (Match Rule))
    (trails : Trails ['}'] rest rest')
    (found : Matches ecmascript mode true (.choice (Es.lit "\x7b") (.rule (.keyword .function))) rest' place' o') :
    ∃ o, Matches ecmascript mode true (.choice (Es.lit "\x7b") (.rule (.keyword .function))) rest place o ∧
      Together Keeps o o' := by
  obtain ⟨o, brace, together⟩ := text_keeps mode true ['{'] rest rest' place place' (by decide) (none_in _ _ (by decide)) trails
  have before := Matches.token (g := ecmascript) mode true (.text ['{']) rest' place' rfl
  cases found with
  | token _ _ _ _ _ isToken => cases isToken
  | choiceFirst _ _ _ _ _ _ m' left =>
    rw [matches_once _ _ _ _ _ _ _ _ before left] at together
    obtain ⟨m, rfl, keeps⟩ := together_some _ o m' together
    exact ⟨some m, .choiceFirst _ _ _ _ _ _ m brace, keeps⟩
  | choiceSecond _ _ _ _ _ _ o' left right =>
    rw [matches_once _ _ _ _ _ _ _ _ before left] at together
    cases together_none _ o together
    obtain ⟨p, word, together⟩ := token_keeps mode true (.keyword .function) rest rest' place place' o' rfl trails right
    exact ⟨p, .choiceSecond _ _ _ _ _ _ p brace word, together⟩

theorem keeps_nothing (rest rest' : List Char) (place place' : Nat) (trails : Trails ['}'] rest rest') :
    Keeps ⟨rest, place, []⟩ ⟨rest', place', []⟩ :=
  ⟨trails, rfl⟩

theorem keeps_append (m m' n n' : Match Rule) (first : Keeps m m') (second : Keeps n n') :
    Keeps ⟨n.rest, n.place, m.nodes ++ n.nodes⟩ ⟨n'.rest, n'.place, m'.nodes ++ n'.nodes⟩ := by
  refine ⟨second.1, ?_⟩
  rw [List.map_append, List.map_append, first.2, second.2]

/-- What is tried in front of a closing brace ends as it does at the end of the text, as long as the brace
closes none of those opened on the way: with so many of them open the text closes one more than it opens. -/
theorem match_keeps (mode : Mode) (quiet : Bool) (e : Es) (rest' : List Char) (place' : Nat) (o' : Option (Match Rule))
    (found : Matches ecmascript mode quiet e rest' place' o') :
    ∀ dry fresh k k', Braced dry fresh k k' e → (dry = true → mode.Dry) → (fresh = true → Stops true rest') →
      balance rest' + k ≤ -1 → ∀ rest place, Trails ['}'] rest rest' →
      ∃ o, Matches ecmascript mode quiet e rest place o ∧ Together Keeps o o' := by
  induction found with
  | token mode quiet e rest' place' isToken =>
    intro dry fresh k k' braced _ _ closed rest place trails
    cases braced with
    | word _ _ cs solid plain =>
      refine text_keeps mode quiet cs rest rest' place place' solid (fun c member contra => plain c member ?_) trails
      rcases List.mem_cons.mp contra with rfl | brace
      · exact List.mem_cons_self
      · rw [List.mem_singleton.mp brace]
        decide
    | opens => exact text_keeps mode quiet ['{'] rest rest' place place' (by decide) (none_in _ _ (by decide)) trails
    | closes _ k =>
      obtain ⟨tail, rfl, stands⟩ := trails
      cases rest with
      | cons c rest =>
        by_cases brace : c = '}'
        · subst brace
          have alone : Matches ecmascript mode quiet (Es.lit "\x7d") ('}' :: rest) place (some ⟨rest, place + 1, []⟩) :=
            .token mode quiet (Es.lit "\x7d") ('}' :: rest) place rfl
          exact ⟨_, alone, trails_take ['}'] ['}'] rest _ tail stands rfl, rfl⟩
        · have before := first_fails mode quiet place' '}' c [] (rest ++ tail) (Ne.symm brace)
          rw [matches_once _ _ _ _ _ _ _ _ (Matches.token mode quiet (Es.lit "\x7d") (c :: rest ++ tail) place' rfl) before]
          exact ⟨none, first_fails mode quiet place '}' c [] rest (Ne.symm brace), trivial⟩
      | nil =>
        rcases stands with rfl | ⟨_, rfl⟩
        · exact ⟨none, nothing_fails mode quiet place '}' [], trivial⟩
        · rw [List.nil_append, brace_balance] at closed
          omega
    | char _ _ member plain =>
      exact char_keeps mode quiet member rest rest' place place' (plain '\n' (by decide)) (plain '}' (by decide)) trails
    | layout _ _ lines =>
      exact ⟨_, .token mode quiet (.layout lines) rest place rfl, skip_keeps lines rest rest' place place' trails, rfl⟩
    | _ => cases isToken
  | ruleFails mode quiet name rest' place' inner hyp =>
    intro dry fresh k k' braced _ stops closed rest place trails
    cases braced with
    | token _ _ _ token needs =>
      exact token_keeps mode quiet name rest rest' place place' none token trails (.ruleFails _ _ _ _ _ inner)
    | rule _ _ _ other known =>
      obtain ⟨o, alone, together⟩ := hyp _ false 0 0 (rules_braced name other known) (rule_dry mode name)
        (fun contra => nomatch contra) (by omega) rest place trails
      cases together_none _ o together
      exact ⟨none, .ruleFails _ _ _ _ _ alone, trivial⟩
  | ruleMatches mode quiet name rest' place' m' inner hyp =>
    intro dry fresh k k' braced _ stops closed rest place trails
    cases braced with
    | token _ _ _ token needs =>
      exact token_keeps mode quiet name rest rest' place place' _ token trails (.ruleMatches _ _ _ _ _ m' inner)
    | rule _ _ _ other known =>
      obtain ⟨o, alone, together⟩ := hyp _ false 0 0 (rules_braced name other known) (rule_dry mode name)
        (fun contra => nomatch contra) (by omega) rest place trails
      obtain ⟨m, rfl, keeps⟩ := together_some _ o m' together
      refine ⟨_, .ruleMatches _ _ _ _ _ m alone, keeps.1, ?_⟩
      cases (ecmascript.kind name).counts mode && !quiet with
      | false => rfl
      | true =>
        rw [if_pos rfl, if_pos rfl, List.map_singleton, List.map_singleton,
          shape_other name place m.place place' m'.place rest rest' m.nodes m'.nodes other keeps.2]
  | seqFails mode quiet first second rest' place' left hyp =>
    intro dry fresh k k' braced isDry stops closed rest place trails
    cases braced with
    | afterLayout =>
      cases matches_once _ _ _ _ _ _ _ _ left (.token mode quiet (.layout true) rest' place' rfl)
    | seq _ _ between _ _ _ one two =>
      obtain ⟨o, alone, together⟩ := hyp dry fresh k between one isDry stops closed rest place trails
      cases together_none _ o together
      exact ⟨none, .seqFails _ _ _ _ _ _ alone, trivial⟩
    | statementEnd _ _ tight =>
      exact statement_end_keeps mode quiet (isDry tight) rest rest' place place' none trails
        (.seqFails _ _ _ _ _ _ left)
  | seqMatches mode quiet first second rest' place' m' o' left right hypLeft hypRight =>
    intro dry fresh k k' braced isDry stops closed rest place trails
    have later (m : Match Rule) (p : Option (Match Rule)) (keeps : Keeps m m')
        (alone : Matches ecmascript mode quiet first rest place (some m))
        (more : Matches ecmascript mode quiet second (mode.skip m.rest m.place).1 (mode.skip m.rest m.place).2 p)
        (together : Together Keeps p o') :
        ∃ o, Matches ecmascript mode quiet (.seq first second) rest place o ∧
          Together Keeps o (o'.map fun n => ⟨n.rest, n.place, m'.nodes ++ n.nodes⟩) := by
      refine ⟨_, .seqMatches _ _ _ _ _ _ m p alone more, ?_⟩
      cases o' with
      | none =>
        cases together_none _ p together
        trivial
      | some n' =>
        obtain ⟨n, rfl, further⟩ := together_some _ p n' together
        exact keeps_append m m' n n' keeps further
    have skips := balance_mode mode m'.rest m'.place
    cases braced with
    | afterLayout _ _ _ _ inner =>
      have gone : m' = ⟨_, _, []⟩ :=
        Option.some.inj (matches_once _ _ _ _ _ _ _ _ left (.token mode quiet (.layout true) rest' place' rfl))
      have solid : Stops true m'.rest := by
        rw [gone]
        exact skip_stops true rest' place'
      have same : balance m'.rest = balance rest' := by
        rw [gone]
        exact (balance_skip true rest' place').symm
      have keeps : Keeps ⟨(skipLayout true .nothing rest place).1, (skipLayout true .nothing rest place).2, []⟩ m' := by
        rw [gone]
        exact ⟨skip_keeps true rest rest' place place' trails, rfl⟩
      obtain ⟨p, more, together⟩ := hypRight dry true k k' inner isDry (fun _ => mode_stops mode _ _ solid)
        (by omega) _ _ (mode_keeps mode _ _ (skipLayout true .nothing rest place).2 m'.place keeps.1)
      exact later _ p keeps (.token mode quiet (.layout true) rest place rfl) more together
    | seq _ _ between _ _ _ one two =>
      obtain ⟨o, alone, together⟩ := hypLeft dry fresh k between one isDry stops closed rest place trails
      obtain ⟨m, rfl, keeps⟩ := together_some _ o m' together
      have before := match_balanced mode quiet first rest' place' _ left dry fresh k between one isDry stops m' rfl
      obtain ⟨p, more, together⟩ := hypRight dry false between k' two isDry (fun contra => nomatch contra)
        (by omega) _ _ (mode_keeps mode _ _ m.place m'.place keeps.1)
      exact later m p keeps alone more together
    | statementEnd _ _ tight =>
      exact statement_end_keeps mode quiet (isDry tight) rest rest' place place' _ trails
        (.seqMatches _ _ _ _ _ _ m' o' left right)
  | choiceFirst mode quiet first second rest' place' m' left hyp =>
    intro dry fresh k k' braced isDry stops closed rest place trails
    cases braced with
    | choice _ _ _ _ _ one _ =>
      obtain ⟨o, alone, together⟩ := hyp dry fresh k k' one isDry stops closed rest place trails
      obtain ⟨m, rfl, keeps⟩ := together_some _ o m' together
      exact ⟨_, .choiceFirst _ _ _ _ _ _ m alone, keeps⟩
  | choiceSecond mode quiet first second rest' place' o' left right hypLeft hypRight =>
    intro dry fresh k k' braced isDry stops closed rest place trails
    cases braced with
    | choice _ _ _ _ _ one two =>
      obtain ⟨o, alone, together⟩ := hypLeft dry fresh k k' one isDry stops closed rest place trails
      cases together_none _ o together
      obtain ⟨p, other, together⟩ := hypRight dry fresh k k' two isDry stops closed rest place trails
      exact ⟨p, .choiceSecond _ _ _ _ _ _ p alone other, together⟩
  | maybe mode quiet item rest' place' o' inner hyp =>
    intro dry fresh k k' braced isDry stops closed rest place trails
    cases braced with
    | maybe _ _ _ inside =>
      obtain ⟨o, alone, together⟩ := hyp dry fresh k k inside isDry stops closed rest place trails
      refine ⟨_, .maybe _ _ _ _ _ o alone, ?_⟩
      cases o' with
      | none =>
        cases together_none _ o together
        exact keeps_nothing rest rest' place place' trails
      | some m' =>
        obtain ⟨m, rfl, keeps⟩ := together_some _ o m' together
        exact keeps
  | starEnds mode quiet item rest' place' inner hyp =>
    intro dry fresh k k' braced isDry stops closed rest place trails
    cases braced with
    | star _ _ _ inside =>
      obtain ⟨o, alone, together⟩ := hyp dry false k k inside isDry (fun contra => nomatch contra) closed rest place trails
      cases together_none _ o together
      exact ⟨_, .starEnds _ _ _ _ _ alone, keeps_nothing rest rest' place place' trails⟩
  | starMatches mode quiet item rest' place' m' n' inner others hypInner hypOthers =>
    intro dry fresh k k' braced isDry stops closed rest place trails
    cases braced with
    | star _ _ _ inside =>
      obtain ⟨o, alone, together⟩ := hypInner dry false k k inside isDry (fun contra => nomatch contra) closed rest place trails
      obtain ⟨m, rfl, keeps⟩ := together_some _ o m' together
      have before := match_balanced mode quiet item rest' place' _ inner dry false k k inside isDry
        (fun contra => nomatch contra) m' rfl
      obtain ⟨p, more, together⟩ := hypOthers dry false k k (.again false k item inside) isDry
        (fun contra => nomatch contra) (by omega) m.rest m.place keeps.1
      obtain ⟨n, rfl, further⟩ := together_some _ p n' together
      exact ⟨_, .starMatches _ _ _ _ _ m n alone more, keeps_append m m' n n' keeps further⟩
  | againEnds mode quiet item rest' place' inner hyp =>
    intro dry fresh k k' braced isDry stops closed rest place trails
    have skips := balance_mode mode rest' place'
    cases braced with
    | again _ _ _ inside =>
      obtain ⟨o, alone, together⟩ := hyp dry false k k inside isDry (fun contra => nomatch contra) (by omega) _ _
        (mode_keeps mode rest rest' place place' trails)
      cases together_none _ o together
      exact ⟨_, .againEnds _ _ _ _ _ alone, keeps_nothing rest rest' place place' trails⟩
  | againMatches mode quiet item rest' place' m' n' inner others hypInner hypOthers =>
    intro dry fresh k k' braced isDry stops closed rest place trails
    have skips := balance_mode mode rest' place'
    cases braced with
    | again _ _ _ inside =>
      obtain ⟨o, alone, together⟩ := hypInner dry false k k inside isDry (fun contra => nomatch contra) (by omega) _ _
        (mode_keeps mode rest rest' place place' trails)
      obtain ⟨m, rfl, keeps⟩ := together_some _ o m' together
      have before := match_balanced mode quiet item _ _ _ inner dry false k k inside isDry
        (fun contra => nomatch contra) m' rfl
      obtain ⟨p, more, together⟩ := hypOthers dry false k k (.again false k item inside) isDry
        (fun contra => nomatch contra) (by omega) m.rest m.place keeps.1
      obtain ⟨n, rfl, further⟩ := together_some _ p n' together
      exact ⟨_, .againMatches _ _ _ _ _ m n alone more, keeps_append m m' n n' keeps further⟩
  | look mode quiet item rest' place' o' inner hyp =>
    intro dry fresh k k' braced isDry stops closed rest place trails
    cases braced with
    | look _ _ _ _ inside =>
      obtain ⟨o, alone, together⟩ := hyp dry fresh k _ inside isDry stops closed rest place trails
      refine ⟨_, .look _ _ _ _ _ o alone, ?_⟩
      cases o' with
      | none =>
        cases together_none _ o together
        trivial
      | some m' =>
        obtain ⟨m, rfl, _⟩ := together_some _ o m' together
        exact keeps_nothing rest rest' place place' trails
  | refuse mode quiet item rest' place' o' inner hyp =>
    intro dry fresh k k' braced isDry stops closed rest place trails
    have refused (alike : ∃ o, Matches ecmascript mode true item rest place o ∧ Together Keeps o o') :
        ∃ o, Matches ecmascript mode quiet (.refuse item) rest place o ∧
          Together Keeps o (if o'.isSome then none else some ⟨rest', place', []⟩) := by
      obtain ⟨o, alone, together⟩ := alike
      refine ⟨_, .refuse _ _ _ _ _ o alone, ?_⟩
      cases o' with
      | none =>
        cases together_none _ o together
        exact keeps_nothing rest rest' place place' trails
      | some m' =>
        obtain ⟨m, rfl, _⟩ := together_some _ o m' together
        trivial
    cases braced with
    | refuse _ _ _ _ inside => exact refused (hyp dry fresh k _ inside isDry stops closed rest place trails)
    | statementStart => exact refused (statement_start_keeps mode rest rest' place place' o' trails inner)

end Ecma.Grammar
