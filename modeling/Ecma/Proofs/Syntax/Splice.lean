import Ecma.Proofs.Grammar.Trail
import Ecma.Proofs.Syntax.Parse

set_option autoImplicit false

/-!
Constructed functions. The texts of the parameters and of the body stand between the words that make a
function of them, and each is parsed there as it is alone.
-/

namespace Ecma.Grammar

/-- Parameters between parentheses. -/
def Es.parameterList : Es :=
  .maybe (Es.separated (.rule .identifier) (Es.lit ","))

/-- A comma and a parameter. -/
def Es.furtherParameter : Es :=
  Es.all [Es.sp, Es.lit ",", Es.sp, .rule .identifier]

/-- A text that is a list of parameters by itself, and the nodes of its parameters. -/
def ParameterText (text : List Char) (nodes : List (Node Rule)) : Prop :=
  ∃ m, Matches ecmascript .tight false (Es.all [Es.sp, Es.parameterList, Es.sp, .ending]) text 0 (some m) ∧
    m.nodes = nodes

/-- A text that is the body of a function by itself, and its node. -/
def BodyText (text : List Char) (node : Node Rule) : Prop :=
  ∃ m, Matches ecmascript .tight false (Es.all [Es.sp, .rule .functionBody, Es.sp, .ending]) text 0 (some m) ∧
    m.nodes = [node]

/-! How a match came about. -/

section

variable (mode : Mode) (quiet : Bool) (place : Nat)

theorem text_matched (cs rest : List Char) (m : Match Rule)
    (found : Matches ecmascript mode quiet (.text cs) rest place (some m)) : rest = cs ++ m.rest ∧ m.nodes = [] := by
  have is := matches_once _ _ _ _ _ _ _ _ found (.token mode quiet (.text cs) rest place rfl)
  obtain ⟨left, takes, rfl⟩ := Option.map_eq_some_iff.mp is.symm
  exact ⟨(take_text_takes cs rest place left takes).1, rfl⟩

theorem layout_matched (lines : Bool) (rest : List Char) (m : Match Rule)
    (found : Matches ecmascript mode quiet (.layout lines) rest place (some m)) :
    m = ⟨(skipLayout lines .nothing rest place).1, (skipLayout lines .nothing rest place).2, []⟩ := by
  exact Option.some.inj (matches_once _ _ _ _ _ _ _ _ found (.token mode quiet (.layout lines) rest place rfl))

theorem ending_matched (rest : List Char) (m : Match Rule)
    (found : Matches ecmascript mode quiet .ending rest place (some m)) : rest = [] ∧ m = ⟨[], place, []⟩ := by
  have is := matches_once _ _ _ _ _ _ _ _ found (.token mode quiet .ending rest place rfl)
  obtain ⟨spent, same⟩ := Option.ite_none_right_eq_some.mp is.symm
  have nothing := List.isEmpty_iff.mp spent
  cases same
  exact ⟨nothing, by rw [nothing]⟩

theorem choice_matched (first second : Es) (rest : List Char) (m : Match Rule)
    (found : Matches ecmascript mode quiet (.choice first second) rest place (some m)) :
    Matches ecmascript mode quiet first rest place (some m) ∨
      (Matches ecmascript mode quiet first rest place none ∧ Matches ecmascript mode quiet second rest place (some m)) := by
  generalize same : some m = o at found
  cases found with
  | token _ _ _ _ _ isToken => cases isToken
  | choiceFirst _ _ _ _ _ _ n left => exact .inl (same ▸ left)
  | choiceSecond _ _ _ _ _ _ o left right => exact .inr ⟨left, same ▸ right⟩

theorem look_matched (item : Es) (rest : List Char) (m : Match Rule)
    (found : Matches ecmascript mode quiet (.look item) rest place (some m)) : m = ⟨rest, place, []⟩ := by
  generalize same : some m = o at found
  cases found with
  | token _ _ _ _ _ isToken => cases isToken
  | look _ _ _ _ _ o inner =>
    obtain ⟨_, _, rfl⟩ := Option.map_eq_some_iff.mp same.symm
    rfl

-- In a rule without layout of its own the items follow each other.
theorem tight_matched (first second : Es) (rest : List Char) (m : Match Rule)
    (found : Matches ecmascript .tight quiet (.seq first second) rest place (some m)) :
    ∃ n k, Matches ecmascript .tight quiet first rest place (some n) ∧
      Matches ecmascript .tight quiet second n.rest n.place (some k) ∧ m = ⟨k.rest, k.place, n.nodes ++ k.nodes⟩ :=
  seq_matched ecmascript .tight quiet first second rest place m found

end

/-! Lists of parameters before a parenthesis. -/

section

variable (more : List Char)

/-- A line end and a parenthesis with more text behind it. -/
abbrev Behind : List Char :=
  '\n' :: ')' :: more

theorem paren_stops (lines : Bool) : Stops lines (')' :: more) := by
  refine ⟨?_, ?_, ?_⟩
  · rintro _ _ ⟨rfl⟩
    cases lines <;> rfl
  · rintro _ ⟨⟩
  · rintro _ ⟨⟩

/-- No comment that is open after the layout at the front is closed behind the text. -/
def Safe (rest : List Char) : Prop :=
  ∀ place inside, (skipLayout true .nothing rest place).1 = '/' :: '*' :: inside →
    closeComment true (inside ++ Behind more) = none

theorem safe_skip (rest rest' : List Char) (place place' : Nat) (trails : Trails (')' :: more) rest rest')
    (safe : Safe more rest) :
    Trails (')' :: more) (skipLayout true .nothing rest place).1 (skipLayout true .nothing rest' place').1 :=
  skip_trails (')' :: more) (paren_stops more) true rest rest' place place' trails (safe place)

-- After layout is skipped the parenthesis comes next or there is something in front of the line end.
theorem skipped_trails (rest rest' : List Char) (place' : Nat)
    (trails : Trails (')' :: more) rest (skipLayout true .nothing rest' place').1) :
    (∃ c left, rest = c :: left ∧ (skipLayout true .nothing rest' place').1 = c :: left ++ Behind more) ∨
      (rest = [] ∧ (skipLayout true .nothing rest' place').1 = ')' :: more) := by
  obtain ⟨tail, same, rfl | ⟨rfl, rfl⟩⟩ := trails
  · cases rest with
    | nil =>
      have stops := skip_stops true rest' place'
      have line := stops.solid '\n' (')' :: more) (same.trans (List.nil_append _))
      cases line
    | cons c left => exact .inl ⟨c, left, rfl, same⟩
  · exact .inr ⟨rfl, same⟩

def isParameter (name : Rule) : Bool :=
  name == .identifier || name == .identifierName

theorem parameter_tokens (name : Rule) (parameter : isParameter name = true) :
    Es.kind name = .token ∧ (Es.body name).avoids ['\n', ')', '/', ','] isParameter = true := by
  cases name with
  | identifier | identifierName => exact ⟨rfl, by decide +kernel⟩
  | _ => cases parameter

theorem behind_barred : Barred ['\n', ')', '/', ','] (Behind more) := by
  rintro c ⟨rfl⟩
  decide

-- Every attempt ends.
theorem outcome_exists (mode : Mode) (quiet : Bool) (e : Es) (rest : List Char) (place : Nat)
    (founded : e.founded Es.ranking = true) : ∃ o, Matches ecmascript mode quiet e rest place o := by
  obtain ⟨o, found, _⟩ := run_agrees ecmascript Es.ranking ecmascript_ranked
    (e.cost Es.ranking + Ranking.most * rest.length) e mode (if quiet then .positive else .none) rest place [] 0
    founded (Nat.le_refl _)
  refine ⟨o, ?_⟩
  cases quiet <;> exact found

-- An identifier takes a character.
theorem identifier_takes (mode : Mode) (quiet : Bool) (place : Nat) (o : Option (Match Rule))
    (found : Matches ecmascript mode quiet (.rule .identifier) [] place o) : o = none := by
  cases o with
  | none => rfl
  | some m =>
    have less := match_progresses ecmascript Es.ranking ecmascript_ranked _ _ _ _ _ _ found m rfl rfl
    cases less

theorem identifier_same (quiet : Bool) (rest tail : List Char) (place place' : Nat)
    (barred : Barred ['\n', ')', '/', ','] tail) :
    ∃ o o', Matches ecmascript .tight quiet (.rule .identifier) rest place o ∧
      Matches ecmascript .tight quiet (.rule .identifier) (rest ++ tail) place' o' ∧
      Together (SameMatch rest tail) o o' := by
  obtain ⟨o', found⟩ := outcome_exists .tight quiet (.rule .identifier) (rest ++ tail) place' rfl
  obtain ⟨o, alone, together⟩ := plain_same ['\n', ')', '/', ','] isParameter parameter_tokens .tight quiet
    .identifier rfl rest tail place place' o' barred found
  exact ⟨o, o', alone, found, together⟩

-- Nothing that a name may begin with.
theorem identifier_fails (quiet : Bool) (rest : List Char) (place : Nat)
    (barred : Barred ['\n', ')', '/', ','] rest) :
    Matches ecmascript .tight quiet (.rule .identifier) rest place none := by
  obtain ⟨o, o', alone, found, together⟩ := identifier_same quiet [] rest place place barred
  cases identifier_takes .tight quiet place o alone
  cases o' with
  | none => exact found
  | some m => exact together.elim

/-! One more parameter. -/

theorem after_layout (quiet : Bool) (e : Es) (rest : List Char) (place : Nat) (o : Option (Match Rule))
    (found : Matches ecmascript .tight quiet e (skipLayout true .nothing rest place).1
      (skipLayout true .nothing rest place).2 o) : Matches ecmascript .tight quiet (.seq Es.sp e) rest place o := by
  have whole := dry_seq .tight quiet place tight_dry Es.sp e rest _ o
    (.token .tight quiet (.layout true) rest place rfl) found
  cases o <;> exact whole

theorem after_text (quiet : Bool) (e : Es) (cs rest : List Char) (place : Nat) (o : Option (Match Rule))
    (found : Matches ecmascript .tight quiet e rest (place + bytes cs) o) :
    Matches ecmascript .tight quiet (.seq (.text cs) e) (cs ++ rest) place o := by
  have first := Matches.token (g := ecmascript) .tight quiet (.text cs) (cs ++ rest) place rfl
  rw [Peg.token?, take_text_whole] at first
  have whole := dry_seq .tight quiet place tight_dry _ e _ _ o first found
  cases o <;> exact whole

/-- Where a parameter stands behind layout and a comma. -/
def Named (rest left : List Char) (place : Nat) (o : Option (Match Rule)) : Prop :=
  (skipLayout true .nothing rest place).1 = ',' :: left ∧
    Matches ecmascript .tight false (.rule .identifier)
      (skipLayout true .nothing left ((skipLayout true .nothing rest place).2 + 1)).1
      (skipLayout true .nothing left ((skipLayout true .nothing rest place).2 + 1)).2 o

theorem further_named (rest left : List Char) (place : Nat) (o : Option (Match Rule)) (named : Named rest left place o) :
    Matches ecmascript .tight false Es.furtherParameter rest place o := by
  refine after_layout false _ rest place o ?_
  rw [named.1]
  exact after_text false _ [','] left _ o (after_layout false _ left _ o named.2)

theorem further_fails (rest : List Char) (place : Nat) (other : ∀ left, (skipLayout true .nothing rest place).1 ≠ ',' :: left) :
    Matches ecmascript .tight false Es.furtherParameter rest place none := by
  refine after_layout false _ rest place none (.seqFails _ _ _ _ _ _ ?_)
  cases is : (skipLayout true .nothing rest place).1 with
  | nil => exact nothing_fails .tight false _ ',' []
  | cons c left => exact first_fails .tight false _ ',' c [] left fun same => other left (by rw [is, same])

/-- A parameter that follows is the same in front of the parenthesis. -/
theorem further_same (rest : List Char) (place place' : Nat) (o' : Option (Match Rule)) (safe : Safe more rest)
    (next : ∀ left, (skipLayout true .nothing rest place).1 = ',' :: left → Safe more left)
    (found : Matches ecmascript .tight false Es.furtherParameter (rest ++ Behind more) place' o') :
    ∃ o, Matches ecmascript .tight false Es.furtherParameter rest place o ∧
      Together (SameMatch rest (Behind more)) o o' := by
  have neither (alone : ∀ left, (skipLayout true .nothing rest place).1 ≠ ',' :: left)
      (before : ∀ left, (skipLayout true .nothing (rest ++ Behind more) place').1 ≠ ',' :: left) :
      ∃ o, Matches ecmascript .tight false Es.furtherParameter rest place o ∧
        Together (SameMatch rest (Behind more)) o o' := by
    cases matches_once _ _ _ _ _ _ _ _ found (further_fails _ _ before)
    exact ⟨none, further_fails rest place alone, trivial⟩
  rcases skipped_trails more _ _ _ (safe_skip more rest (rest ++ Behind more) place place' (trails_before _ rest) safe) with
    ⟨c, left, is, is'⟩ | ⟨is, is'⟩
  · by_cases comma : c = ','
    · subst comma
      have named (o p : Option (Match Rule)) (alone : Named rest left place o)
          (before : Named (rest ++ Behind more) (left ++ Behind more) place' p)
          (together : Together (SameMatch rest (Behind more)) o p) :
          ∃ o, Matches ecmascript .tight false Es.furtherParameter rest place o ∧
            Together (SameMatch rest (Behind more)) o o' := by
        cases matches_once _ _ _ _ _ _ _ _ found (further_named _ _ _ p before)
        exact ⟨o, further_named rest left place o alone, together⟩
      have second := safe_skip more left (left ++ Behind more) ((skipLayout true .nothing rest place).2 + 1)
        ((skipLayout true .nothing (rest ++ Behind more) place').2 + 1) (trails_before _ left) (next left is)
      rcases skipped_trails more _ _ _ second with ⟨d, tail, at', at''⟩ | ⟨at', at''⟩
      · obtain ⟨o, p, alone, before, together⟩ := identifier_same false (d :: tail) (Behind more)
          (skipLayout true .nothing left ((skipLayout true .nothing rest place).2 + 1)).2
          (skipLayout true .nothing (left ++ Behind more) ((skipLayout true .nothing (rest ++ Behind more) place').2 + 1)).2
          (behind_barred more)
        refine named o p ⟨is, at' ▸ alone⟩ ⟨is', at'' ▸ before⟩ ?_
        cases p with
        | none =>
          cases together_none _ o together
          trivial
        | some m' =>
          obtain ⟨m, rfl, ⟨cs, taken⟩, same⟩ := together_some _ o m' together
          obtain ⟨blank, skips⟩ := skip_layout_takes true rest place
          obtain ⟨blank', skips'⟩ := skip_layout_takes true left ((skipLayout true .nothing rest place).2 + 1)
          refine ⟨⟨blank ++ ',' :: (blank' ++ cs), ?_⟩, same⟩
          rw [skips.1, is, skips'.1, at', taken, List.append_assoc, List.cons_append, List.append_assoc]
      · refine named none none ⟨is, ?_⟩ ⟨is', ?_⟩ trivial
        · rw [at']
          exact identifier_fails false [] _ (nothing_barred _)
        · rw [at'']
          refine identifier_fails false _ _ ?_
          rintro c ⟨rfl⟩
          decide
    · refine neither (fun other same => ?_) fun other same => ?_
      · rw [is] at same
        exact comma (List.cons.inj same).1
      · rw [is'] at same
        exact comma (List.cons.inj same).1
  · refine neither (fun other same => ?_) fun other same => ?_
    · rw [is] at same
      cases same
    · rw [is'] at same
      cases same

/-! All parameters. -/

/-- What is kept from parameter to parameter: no comment reaches over the end of the text, and no parenthesis
stands where the parameters end. -/
structure Listing (good : List Char → Nat → Prop) : Prop where
  safe : ∀ rest place, good rest place → Safe more rest
  next : ∀ rest place left, good rest place → (skipLayout true .nothing rest place).1 = ',' :: left → Safe more left
  step : ∀ rest place m, good rest place →
    Matches ecmascript .tight false Es.furtherParameter rest place (some m) → good m.rest m.place
  ends : ∀ rest place behind, good rest place →
    Matches ecmascript .tight false Es.furtherParameter rest place none →
    (skipLayout true .nothing rest place).1 ≠ ')' :: behind

variable (good : List Char → Nat → Prop) (listing : Listing more good)

include listing in
theorem again_same (mode : Mode) (quiet : Bool) (e : Es) (rest' : List Char) (place' : Nat) (o' : Option (Match Rule))
    (found : Matches ecmascript mode quiet e rest' place' o') :
    mode = .tight → quiet = false → e = .again Es.furtherParameter → ∀ rest place, rest' = rest ++ Behind more →
      good rest place → ∃ m m', o' = some m' ∧
        Matches ecmascript .tight false (.again Es.furtherParameter) rest place (some m) ∧
        SameMatch rest (Behind more) m m' ∧ good m.rest m.place ∧
        Matches ecmascript .tight false Es.furtherParameter m.rest m.place none := by
  induction found with
  | againEnds mode quiet item rest' place' inner =>
    rintro rfl rfl same rest place rfl isGood
    cases same
    obtain ⟨o, alone, together⟩ := further_same more rest place place' none (listing.safe _ _ isGood)
      (fun left => listing.next _ _ left isGood) inner
    cases together_none _ o together
    exact ⟨_, _, rfl, .againEnds .tight false _ rest place alone, ⟨⟨[], rfl⟩, rfl, rfl⟩, isGood, alone⟩
  | againMatches mode quiet item rest' place' m' n' inner others _ hyp =>
    rintro rfl rfl same rest place rfl isGood
    cases same
    obtain ⟨o, alone, together⟩ := further_same more rest place place' _ (listing.safe _ _ isGood)
      (fun left => listing.next _ _ left isGood) inner
    obtain ⟨m, rfl, ⟨cs, taken⟩, left, shapes⟩ := together_some _ o m' together
    obtain ⟨n, _, ⟨rfl⟩, again, ⟨⟨ds, further⟩, last, same⟩, still, ends⟩ :=
      hyp rfl rfl rfl m.rest m.place left (listing.step _ _ m isGood alone)
    refine ⟨_, _, rfl, .againMatches .tight false _ rest place m n alone again, ⟨⟨cs ++ ds, ?_⟩, last, ?_⟩, still, ends⟩
    · rw [taken, further, List.append_assoc]
    · rw [List.map_append, List.map_append, shapes, same]
  | token mode quiet e rest place isToken =>
    rintro rfl rfl rfl
    cases isToken
  | _ =>
    intro _ _ same
    cases same

include listing in
/-- A list of parameters is the same in front of the parenthesis, and that is the one which closes it. -/
theorem list_same (text behind : List Char) (place place' : Nat) (m' : Match Rule) (safe : Safe more text)
    (first : ∀ m, Matches ecmascript .tight false (.rule .identifier) (skipLayout true .nothing text place).1
      (skipLayout true .nothing text place).2 (some m) → good m.rest m.place)
    (none' : Matches ecmascript .tight false (.rule .identifier) (skipLayout true .nothing text place).1
      (skipLayout true .nothing text place).2 none → ∀ left, (skipLayout true .nothing text place).1 ≠ ')' :: left)
    (found : Matches ecmascript .tight false Es.parameterList (skipLayout true .nothing (text ++ Behind more) place').1
      (skipLayout true .nothing (text ++ Behind more) place').2 (some m'))
    (closes : (skipLayout true .nothing m'.rest m'.place).1 = ')' :: behind) :
    behind = more ∧ ∃ m, Matches ecmascript .tight false Es.parameterList (skipLayout true .nothing text place).1
        (skipLayout true .nothing text place).2 (some m) ∧
      (skipLayout true .nothing m.rest m.place).1 = [] ∧ m.nodes.map Node.shape = m'.nodes.map Node.shape := by
  have settled (rest : List Char) (place : Nat) (stops : Stops true rest) : (skipLayout true .nothing rest place).1 = rest :=
    skip_is true rest rest place (.stops rest stops)
  have stops := skip_stops true text place
  have stops' := skip_stops true (text ++ Behind more) place'
  have trails := safe_skip more text (text ++ Behind more) place place' (trails_before _ text) safe
  generalize (skipLayout true .nothing text place).2 = next at first none' found ⊢
  generalize (skipLayout true .nothing (text ++ Behind more) place').2 = next' at found
  rcases skipped_trails more _ _ _ trails with ⟨c, left, is, is'⟩ | ⟨is, is'⟩
  · rw [is] at first none' stops ⊢
    rw [is'] at found stops'
    obtain ⟨o, p, alone, before, together⟩ := identifier_same false (c :: left) (Behind more) next next' (behind_barred more)
    cases p with
    | none =>
      cases together_none _ o together
      have nothing := matches_once _ _ _ _ _ _ _ _ found
        (.maybe .tight false _ _ _ none (.seqFails _ _ _ _ _ _ before))
      cases nothing
      dsimp only [Option.getD] at closes
      rw [settled _ _ stops'] at closes
      cases closes
      exact absurd rfl (none' alone left)
    | some n' =>
      obtain ⟨n, rfl, _, after, shapes⟩ := together_some _ o n' together
      obtain ⟨p, others⟩ := outcome_exists .tight false (.again Es.furtherParameter) n'.rest n'.place rfl
      obtain ⟨k, k', rfl, again, same, still, ends⟩ := again_same more good listing _ _ _ _ _ p others rfl rfl rfl
        n.rest n.place after (first n alone)
      have before := Matches.maybe .tight false _ _ _ _
        (dry_seq .tight false next' tight_dry _ _ _ n' (some k') before (dry_star .tight false _ tight_dry _ _ _ others))
      cases matches_once _ _ _ _ _ _ _ _ found before
      have alone := Matches.maybe .tight false _ _ _ _
        (dry_seq .tight false next tight_dry _ _ _ n (some k) alone (dry_star .tight false _ tight_dry _ _ _ again))
      have last := safe_skip more k.rest (k.rest ++ Behind more) k.place k'.place (trails_before _ k.rest)
        (listing.safe _ _ still)
      dsimp only [Option.map, Option.getD] at closes
      rw [same.2.1] at closes
      rcases skipped_trails more _ _ _ last with ⟨d, tail, at', at''⟩ | ⟨at', at''⟩
      · rw [at''] at closes
        cases closes
        exact absurd at' (listing.ends _ _ _ still ends)
      · rw [at''] at closes
        cases closes
        refine ⟨rfl, _, alone, at', ?_⟩
        dsimp only [Option.map, Option.getD]
        rw [List.map_append, List.map_append, shapes, same.2.2]
  · rw [is] at first none' ⊢
    rw [is'] at found stops'
    have fails : Matches ecmascript .tight false (.rule .identifier) (')' :: more) next' none := by
      refine identifier_fails false _ _ ?_
      rintro c ⟨rfl⟩
      decide
    have nothing := matches_once _ _ _ _ _ _ _ _ found
      (.maybe .tight false _ _ _ none (.seqFails _ _ _ _ _ _ fails))
    cases nothing
    dsimp only [Option.getD] at closes
    rw [settled _ _ stops'] at closes
    cases closes
    have alone := identifier_fails false [] next (nothing_barred _)
    refine ⟨rfl, _, .maybe .tight false _ _ _ none (.seqFails _ _ _ _ _ _ alone), ?_, rfl⟩
    exact settled [] next (nothing_stops true)

/-- A text that does not say how it ends: it has no closing parenthesis and no comment. -/
def Blunt (text : List Char) : Prop :=
  ')' ∉ text ∧ ¬ ['/', '*'] <:+: text

theorem blunt_later (before after : List Char) (blunt : Blunt (before ++ after)) : Blunt after :=
  ⟨fun paren => blunt.1 (List.mem_append_right _ paren),
    fun comment => blunt.2 (comment.trans (List.suffix_append before after).isInfix)⟩

theorem blunt_skip (text : List Char) (place : Nat) (blunt : Blunt text) :
    Blunt (skipLayout true .nothing text place).1 := by
  obtain ⟨cs, takes⟩ := skip_layout_takes true text place
  exact blunt_later cs _ (takes.1 ▸ blunt)

theorem blunt_safe (text : List Char) (blunt : Blunt text) : Safe more text := by
  intro place inside opens
  have later := blunt_skip text place blunt
  rw [opens] at later
  exact absurd ⟨[], inside, rfl⟩ later.2

theorem blunt_listing : Listing more fun rest _ => Blunt rest where
  safe rest place blunt := blunt_safe more rest blunt
  next rest place left blunt comma := by
    have later := blunt_skip rest place blunt
    rw [comma] at later
    exact blunt_safe more left (blunt_later [','] left later)
  step rest place m blunt found := by
    obtain ⟨cs, takes, _⟩ := match_takes ecmascript _ _ _ _ _ _ found m rfl
    exact blunt_later cs _ (takes.1 ▸ blunt)
  ends rest place behind blunt _ same := by
    have later := blunt_skip rest place blunt
    rw [same] at later
    exact later.1 List.mem_cons_self

/-- The parameters that follow come to the end of the text. -/
def Completes (rest : List Char) (place : Nat) : Prop :=
  ∃ m, Matches ecmascript .tight false (.again Es.furtherParameter) rest place (some m) ∧
    (skipLayout true .nothing m.rest m.place).1 = []

theorem again_matched (item : Es) (rest : List Char) (place : Nat) (m : Match Rule)
    (found : Matches ecmascript .tight false (.again item) rest place (some m)) :
    (Matches ecmascript .tight false item rest place none ∧ m = ⟨rest, place, []⟩) ∨
      ∃ n k, Matches ecmascript .tight false item rest place (some n) ∧
        Matches ecmascript .tight false (.again item) n.rest n.place (some k) ∧
        m = ⟨k.rest, k.place, n.nodes ++ k.nodes⟩ := by
  generalize same : some m = o at found
  cases found with
  | token _ _ _ _ _ isToken => cases isToken
  | againEnds _ _ _ _ _ inner => exact .inl ⟨inner, Option.some.inj same⟩
  | againMatches _ _ _ _ _ n k inner others => exact .inr ⟨n, k, inner, others, Option.some.inj same⟩

-- A further parameter stands behind a comma, and not where a comment is open.
theorem further_matched (rest : List Char) (place : Nat) (m : Match Rule)
    (found : Matches ecmascript .tight false Es.furtherParameter rest place (some m)) :
    ∃ left, (skipLayout true .nothing rest place).1 = ',' :: left ∧
      ∀ next inside, (skipLayout true .nothing left next).1 ≠ '/' :: '*' :: inside := by
  by_cases comma : ∃ left, (skipLayout true .nothing rest place).1 = ',' :: left
  · obtain ⟨left, comma⟩ := comma
    refine ⟨left, comma, fun next inside opens => ?_⟩
    have same : (skipLayout true .nothing left ((skipLayout true .nothing rest place).2 + 1)).1 = '/' :: '*' :: inside := by
      rw [skip_is true left _ _ (layout_skips true left next), opens]
    have fails : Named rest left place none := by
      refine ⟨comma, ?_⟩
      rw [same]
      refine identifier_fails false _ _ ?_
      rintro c ⟨rfl⟩
      decide
    cases matches_once _ _ _ _ _ _ _ _ found (further_named rest left place none fails)
  · cases matches_once _ _ _ _ _ _ _ _ found (further_fails rest place fun left same => comma ⟨left, same⟩)

theorem completes_listing : Listing more Completes where
  safe rest place completes next inside opens := by
    obtain ⟨m, again, spent⟩ := completes
    have same : (skipLayout true .nothing rest place).1 = '/' :: '*' :: inside := by
      rw [skip_is true rest _ _ (layout_skips true rest next), opens]
    rcases again_matched _ _ _ m again with ⟨_, rfl⟩ | ⟨n, k, inner, _, rfl⟩
    · rw [spent] at same
      cases same
    · obtain ⟨left, comma, _⟩ := further_matched rest place n inner
      rw [comma] at same
      cases same
  next rest place left completes comma next inside opens := by
    obtain ⟨m, again, spent⟩ := completes
    rcases again_matched _ _ _ m again with ⟨_, rfl⟩ | ⟨n, k, inner, _, rfl⟩
    · rw [spent] at comma
      cases comma
    · obtain ⟨other, same, named⟩ := further_matched rest place n inner
      rw [comma] at same
      cases same
      exact absurd opens (named next inside)
  step rest place m completes found := by
    obtain ⟨n, again, spent⟩ := completes
    rcases again_matched _ _ _ n again with ⟨fails, rfl⟩ | ⟨k, l, inner, others, rfl⟩
    · cases matches_once _ _ _ _ _ _ _ _ fails found
    · cases matches_once _ _ _ _ _ _ _ _ inner found
      exact ⟨l, others, spent⟩
  ends rest place behind completes fails same := by
    obtain ⟨n, again, spent⟩ := completes
    rcases again_matched _ _ _ n again with ⟨_, rfl⟩ | ⟨k, l, inner, _, rfl⟩
    · rw [spent] at same
      cases same
    · cases matches_once _ _ _ _ _ _ _ _ fails inner

-- How a text is a list of parameters.
theorem parameter_text_iff (text : List Char) (nodes : List (Node Rule)) :
    ParameterText text nodes ↔ ∃ m, Matches ecmascript .tight false Es.parameterList
        (skipLayout true .nothing text 0).1 (skipLayout true .nothing text 0).2 (some m) ∧
      (skipLayout true .nothing m.rest m.place).1 = [] ∧ m.nodes = nodes := by
  constructor
  · rintro ⟨m, found, rfl⟩
    obtain ⟨a, b, first, second, rfl⟩ := tight_matched false 0 _ _ text m found
    cases layout_matched .tight false 0 true text a first
    obtain ⟨c, d, third, fourth, rfl⟩ := tight_matched false _ _ _ _ b second
    obtain ⟨e, f, fifth, sixth, rfl⟩ := tight_matched false _ _ _ _ d fourth
    cases layout_matched .tight false _ true _ e fifth
    obtain ⟨spent, rfl⟩ := ending_matched .tight false _ _ f sixth
    exact ⟨c, third, spent, (List.append_nil _).symm⟩
  · rintro ⟨m, found, spent, rfl⟩
    have last := after_layout false .ending m.rest m.place (some ⟨[], _, []⟩) (by
      rw [spent]
      exact .token .tight false .ending [] _ rfl)
    refine ⟨_, after_layout false _ text 0 _ (dry_seq .tight false _ tight_dry _ _ _ m _ found last), ?_⟩
    exact List.append_nil _

/-- The parameters of a constructed function are parsed as they are alone, unless their text says how it ends. -/
theorem parameters_same (text behind : List Char) (place' : Nat) (m' : Match Rule)
    (apart : (∃ nodes, ParameterText text nodes) ∨ Blunt text)
    (found : Matches ecmascript .tight false Es.parameterList (skipLayout true .nothing (text ++ Behind more) place').1
      (skipLayout true .nothing (text ++ Behind more) place').2 (some m'))
    (closes : (skipLayout true .nothing m'.rest m'.place).1 = ')' :: behind) :
    behind = more ∧ ∃ nodes, ParameterText text nodes ∧ nodes.map Node.shape = m'.nodes.map Node.shape := by
  have same : behind = more ∧ ∃ m, Matches ecmascript .tight false Es.parameterList (skipLayout true .nothing text 0).1
      (skipLayout true .nothing text 0).2 (some m) ∧
      (skipLayout true .nothing m.rest m.place).1 = [] ∧ m.nodes.map Node.shape = m'.nodes.map Node.shape := by
    rcases apart with ⟨nodes, alone⟩ | blunt
    · obtain ⟨m, list, spent, _⟩ := (parameter_text_iff text nodes).mp alone
      -- Either the list is empty or its first parameter is where the others begin.
      have begins (o : Option (Match Rule)) (named : Matches ecmascript .tight false (.rule .identifier)
          (skipLayout true .nothing text 0).1 (skipLayout true .nothing text 0).2 o) :
          (o = none → (skipLayout true .nothing text 0).1 = []) ∧ ∀ n, o = some n → Completes n.rest n.place := by
        refine ⟨?_, ?_⟩
        · rintro rfl
          cases matches_once _ _ _ _ _ _ _ _ list (.maybe .tight false _ _ _ none (.seqFails _ _ _ _ _ _ named))
          rw [← spent]
          exact (skip_is true _ _ _ (.stops _ (skip_stops true text 0))).symm
        · rintro n rfl
          obtain ⟨p, again⟩ := outcome_exists .tight false (.again Es.furtherParameter) n.rest n.place rfl
          obtain ⟨k, rfl⟩ := again_matches ecmascript _ _ _ _ _ p again
          have whole := Matches.maybe .tight false _ _ _ _
            (dry_seq .tight false _ tight_dry _ _ _ n (some k) named (dry_star .tight false _ tight_dry _ _ _ again))
          cases matches_once _ _ _ _ _ _ _ _ list whole
          exact ⟨k, again, spent⟩
      refine list_same more Completes (completes_listing more) text behind 0 place' m' ?_
        (fun n named => (begins _ named).2 n rfl) (fun fails left same => ?_) found closes
      · intro place inside opens
        have same : (skipLayout true .nothing text 0).1 = '/' :: '*' :: inside := by
          rw [skip_is true text _ _ (layout_skips true text place), opens]
        have fails := identifier_fails false ('/' :: '*' :: inside) (skipLayout true .nothing text 0).2 (by
          rintro c ⟨rfl⟩
          decide)
        have nothing := (begins none (same ▸ fails)).1 rfl
        rw [same] at nothing
        cases nothing
      · rw [(begins none fails).1 rfl] at same
        cases same
    · refine list_same more (fun rest _ => Blunt rest) (blunt_listing more) text behind 0 place' m'
        (blunt_safe more text blunt) (fun n named => ?_) (fun _ left same => ?_) found closes
      · obtain ⟨cs, takes, _⟩ := match_takes ecmascript _ _ _ _ _ _ named n rfl
        exact blunt_later cs _ (takes.1 ▸ blunt_skip text 0 blunt)
      · have later := blunt_skip text 0 blunt
        rw [same] at later
        exact later.1 List.mem_cons_self
  obtain ⟨rfl, m, list, spent, shapes⟩ := same
  exact ⟨rfl, m.nodes, (parameter_text_iff text m.nodes).mpr ⟨m, list, spent, rfl⟩, shapes⟩

end

end Ecma.Grammar
