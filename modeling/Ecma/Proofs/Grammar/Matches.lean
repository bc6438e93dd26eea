import Ecma.Grammar.Peg

set_option autoImplicit false

/-!
What it means for an expression to match, apart from fuel and from the place of an error. A match of an
expression ends in one way only, takes a stretch off the front of the text and leaves nodes whose texts
are stretches of it.
-/

namespace Ecma.Grammar

open Ecma.Text

/-- The bytes of some characters. -/
def bytes : List Char → Nat
  | [] => 0
  | c :: cs => c.utf8Size + bytes cs

/-- A successful match: the text left over, its place, and the nodes that were left, in order. -/
structure Match (ρ : Type) where
  rest : List Char
  place : Nat
  nodes : List (Node ρ) := []

/-- Matches without rules inside them. -/
def Peg.token? {ρ : Type} (e : Peg ρ) (rest : List Char) (place : Nat) : Option (Match ρ) :=
  match e with
  | .text cs => (takeText cs rest place).map fun taken => ⟨taken.1, taken.2, []⟩
  | .char member =>
    match rest with
    | c :: rest => if member c then some ⟨rest, place + c.utf8Size, []⟩ else none
    | [] => none
  | .beginning => if place = 0 then some ⟨rest, place, []⟩ else none
  | .ending => if rest.isEmpty then some ⟨rest, place, []⟩ else none
  | .layout lines => some ⟨(skipLayout lines .nothing rest place).1, (skipLayout lines .nothing rest place).2, []⟩
  | _ => none

def Peg.isToken {ρ : Type} : Peg ρ → Bool
  | .text _ | .char _ | .beginning | .ending | .layout _ => true
  | _ => false

/-- How an expression matches; `quiet` holds in a lookahead, where no nodes are left. -/
inductive Matches {ρ : Type} (g : Grammar ρ) :
    Mode → Bool → Peg ρ → List Char → Nat → Option (Match ρ) → Prop
  | token (mode : Mode) (quiet : Bool) (e : Peg ρ) (rest : List Char) (place : Nat) (isToken : e.isToken = true) :
      Matches g mode quiet e rest place (e.token? rest place)
  | ruleFails (mode : Mode) (quiet : Bool) (name : ρ) (rest : List Char) (place : Nat)
      (inner : Matches g ((g.kind name).inside mode) quiet (g.body name) rest place none) :
      Matches g mode quiet (.rule name) rest place none
  | ruleMatches (mode : Mode) (quiet : Bool) (name : ρ) (rest : List Char) (place : Nat) (m : Match ρ)
      (inner : Matches g ((g.kind name).inside mode) quiet (g.body name) rest place (some m)) :
      Matches g mode quiet (.rule name) rest place (some ⟨m.rest, m.place,
        if (g.kind name).counts mode && !quiet then [.mk name place m.place rest m.nodes] else []⟩)
  | seqFails (mode : Mode) (quiet : Bool) (first second : Peg ρ) (rest : List Char) (place : Nat)
      (left : Matches g mode quiet first rest place none) :
      Matches g mode quiet (.seq first second) rest place none
  | seqMatches (mode : Mode) (quiet : Bool) (first second : Peg ρ) (rest : List Char) (place : Nat) (m : Match ρ)
      (o : Option (Match ρ)) (left : Matches g mode quiet first rest place (some m))
      (right : Matches g mode quiet second (mode.skip m.rest m.place).1 (mode.skip m.rest m.place).2 o) :
      Matches g mode quiet (.seq first second) rest place
        (o.map fun n => ⟨n.rest, n.place, m.nodes ++ n.nodes⟩)
  | choiceFirst (mode : Mode) (quiet : Bool) (first second : Peg ρ) (rest : List Char) (place : Nat) (m : Match ρ)
      (left : Matches g mode quiet first rest place (some m)) :
      Matches g mode quiet (.choice first second) rest place (some m)
  | choiceSecond (mode : Mode) (quiet : Bool) (first second : Peg ρ) (rest : List Char) (place : Nat)
      (o : Option (Match ρ)) (left : Matches g mode quiet first rest place none)
      (right : Matches g mode quiet second rest place o) :
      Matches g mode quiet (.choice first second) rest place o
  | maybe (mode : Mode) (quiet : Bool) (item : Peg ρ) (rest : List Char) (place : Nat) (o : Option (Match ρ))
      (inner : Matches g mode quiet item rest place o) :
      Matches g mode quiet (.maybe item) rest place (some (o.getD ⟨rest, place, []⟩))
  | starEnds (mode : Mode) (quiet : Bool) (item : Peg ρ) (rest : List Char) (place : Nat)
      (inner : Matches g mode quiet item rest place none) :
      Matches g mode quiet (.star item) rest place (some ⟨rest, place, []⟩)
  | starMatches (mode : Mode) (quiet : Bool) (item : Peg ρ) (rest : List Char) (place : Nat) (m n : Match ρ)
      (inner : Matches g mode quiet item rest place (some m))
      (others : Matches g mode quiet (.again item) m.rest m.place (some n)) :
      Matches g mode quiet (.star item) rest place (some ⟨n.rest, n.place, m.nodes ++ n.nodes⟩)
  | againEnds (mode : Mode) (quiet : Bool) (item : Peg ρ) (rest : List Char) (place : Nat)
      (inner : Matches g mode quiet item (mode.skip rest place).1 (mode.skip rest place).2 none) :
      Matches g mode quiet (.again item) rest place (some ⟨rest, place, []⟩)
  | againMatches (mode : Mode) (quiet : Bool) (item : Peg ρ) (rest : List Char) (place : Nat) (m n : Match ρ)
      (inner : Matches g mode quiet item (mode.skip rest place).1 (mode.skip rest place).2 (some m))
      (others : Matches g mode quiet (.again item) m.rest m.place (some n)) :
      Matches g mode quiet (.again item) rest place (some ⟨n.rest, n.place, m.nodes ++ n.nodes⟩)
  | look (mode : Mode) (quiet : Bool) (item : Peg ρ) (rest : List Char) (place : Nat) (o : Option (Match ρ))
      (inner : Matches g mode true item rest place o) :
      Matches g mode quiet (.look item) rest place (o.map fun _ => ⟨rest, place, []⟩)
  | refuse (mode : Mode) (quiet : Bool) (item : Peg ρ) (rest : List Char) (place : Nat) (o : Option (Match ρ))
      (inner : Matches g mode true item rest place o) :
      Matches g mode quiet (.refuse item) rest place (if o.isSome then none else some ⟨rest, place, []⟩)

section

variable {ρ : Type} (g : Grammar ρ)

theorem matches_once (mode : Mode) (quiet : Bool) (e : Peg ρ) (rest : List Char) (place : Nat)
    (a b : Option (Match ρ)) (first : Matches g mode quiet e rest place a)
    (second : Matches g mode quiet e rest place b) : a = b := by
  induction first generalizing b with
  | token mode quiet e rest place isToken =>
    cases second <;> first | rfl | cases isToken
  | ruleFails mode quiet name rest place inner hyp =>
    cases second with
    | token _ _ _ _ _ isToken => cases isToken
    | ruleFails => rfl
    | ruleMatches _ _ _ _ _ m other => cases hyp _ other
  | ruleMatches mode quiet name rest place m inner hyp =>
    cases second with
    | token _ _ _ _ _ isToken => cases isToken
    | ruleFails _ _ _ _ _ other => cases hyp _ other
    | ruleMatches _ _ _ _ _ n other =>
      cases hyp _ other
      rfl
  | seqFails mode quiet first second rest place left hyp =>
    cases second with
    | token _ _ _ _ _ isToken => cases isToken
    | seqFails => rfl
    | seqMatches _ _ _ _ _ _ _ _ other => cases hyp _ other
  | seqMatches mode quiet first second rest place m o left right hypLeft hypRight =>
    cases second with
    | token _ _ _ _ _ isToken => cases isToken
    | seqFails _ _ _ _ _ _ other => cases hypLeft _ other
    | seqMatches _ _ _ _ _ _ _ _ other others =>
      cases hypLeft _ other
      rw [hypRight _ others]
  | choiceFirst mode quiet first second rest place m left hyp =>
    cases second with
    | token _ _ _ _ _ isToken => cases isToken
    | choiceFirst _ _ _ _ _ _ _ other => exact hyp _ other
    | choiceSecond _ _ _ _ _ _ _ other => cases hyp _ other
  | choiceSecond mode quiet first second rest place o left right hypLeft hypRight =>
    cases second with
    | token _ _ _ _ _ isToken => cases isToken
    | choiceFirst _ _ _ _ _ _ _ other => cases hypLeft _ other
    | choiceSecond _ _ _ _ _ _ _ _ others => exact hypRight _ others
  | maybe mode quiet item rest place o inner hyp =>
    cases second with
    | token _ _ _ _ _ isToken => cases isToken
    | maybe _ _ _ _ _ _ other => rw [hyp _ other]
  | starEnds mode quiet item rest place inner hyp =>
    cases second with
    | token _ _ _ _ _ isToken => cases isToken
    | starEnds => rfl
    | starMatches _ _ _ _ _ _ _ other => cases hyp _ other
  | starMatches mode quiet item rest place m n inner others hypInner hypOthers =>
    cases second with
    | token _ _ _ _ _ isToken => cases isToken
    | starEnds _ _ _ _ _ other => cases hypInner _ other
    | starMatches _ _ _ _ _ _ _ other more =>
      cases hypInner _ other
      cases hypOthers _ more
      rfl
  | againEnds mode quiet item rest place inner hyp =>
    cases second with
    | token _ _ _ _ _ isToken => cases isToken
    | againEnds => rfl
    | againMatches _ _ _ _ _ _ _ other => cases hyp _ other
  | againMatches mode quiet item rest place m n inner others hypInner hypOthers =>
    cases second with
    | token _ _ _ _ _ isToken => cases isToken
    | againEnds _ _ _ _ _ other => cases hypInner _ other
    | againMatches _ _ _ _ _ _ _ other more =>
      cases hypInner _ other
      cases hypOthers _ more
      rfl
  | look mode quiet item rest place o inner hyp =>
    cases second with
    | token _ _ _ _ _ isToken => cases isToken
    | look _ _ _ _ _ _ other => rw [hyp _ other]
  | refuse mode quiet item rest place o inner hyp =>
    cases second with
    | token _ _ _ _ _ isToken => cases isToken
    | refuse _ _ _ _ _ _ other => rw [hyp _ other]

/-! How a match came about. -/

theorem rule_matched (mode : Mode) (quiet : Bool) (name : ρ) (rest : List Char) (place : Nat)
    (m : Match ρ) (found : Matches g mode quiet (.rule name) rest place (some m)) :
    ∃ n, Matches g ((g.kind name).inside mode) quiet (g.body name) rest place (some n) ∧
      m = ⟨n.rest, n.place,
        if (g.kind name).counts mode && !quiet then [.mk name place n.place rest n.nodes] else []⟩ := by
  generalize same : some m = o at found
  cases found with
  | token _ _ _ _ _ isToken => cases isToken
  | ruleFails => cases same
  | ruleMatches _ _ _ _ _ n inner => exact ⟨n, inner, Option.some.inj same⟩

theorem seq_matched (mode : Mode) (quiet : Bool) (first second : Peg ρ) (rest : List Char) (place : Nat)
    (m : Match ρ) (found : Matches g mode quiet (.seq first second) rest place (some m)) :
    ∃ n k, Matches g mode quiet first rest place (some n) ∧
      Matches g mode quiet second (mode.skip n.rest n.place).1 (mode.skip n.rest n.place).2 (some k) ∧
      m = ⟨k.rest, k.place, n.nodes ++ k.nodes⟩ := by
  generalize same : some m = o at found
  cases found with
  | token _ _ _ _ _ isToken => cases isToken
  | seqFails => cases same
  | seqMatches _ _ _ _ _ _ n o left right =>
    obtain ⟨k, rfl, rfl⟩ := Option.map_eq_some_iff.mp same.symm
    exact ⟨n, k, left, right, rfl⟩

theorem refuse_matched (mode : Mode) (quiet : Bool) (item : Peg ρ) (rest : List Char) (place : Nat)
    (m : Match ρ) (found : Matches g mode quiet (.refuse item) rest place (some m)) :
    Matches g mode true item rest place none ∧ m = ⟨rest, place, []⟩ := by
  generalize same : some m = o at found
  cases found with
  | token _ _ _ _ _ isToken => cases isToken
  | refuse _ _ _ _ _ o inner =>
    cases o with
    | none => exact ⟨inner, Option.some.inj same⟩
    | some n => cases same

theorem again_ends (mode : Mode) (quiet : Bool) (e : Peg ρ) (rest : List Char) (place : Nat)
    (o : Option (Match ρ)) (found : Matches g mode quiet e rest place o) (item : Peg ρ) :
    mode = .token → e = .again item → ∀ m, o = some m → Matches g .token quiet item m.rest m.place none := by
  induction found with
  | againEnds mode quiet item rest place inner =>
    rintro rfl ⟨rfl⟩ m same
    cases same
    exact inner
  | againMatches mode quiet item rest place m n inner others _ hyp =>
    rintro rfl ⟨rfl⟩ m same
    cases same
    exact hyp rfl rfl n rfl
  | token mode quiet e rest place isToken =>
    rintro rfl rfl
    cases isToken
  | _ =>
    intro _ same
    cases same

-- A repetition goes on until its item fails.
theorem star_ends (quiet : Bool) (item : Peg ρ) (rest : List Char) (place : Nat) (m : Match ρ)
    (found : Matches g .token quiet (.star item) rest place (some m)) :
    Matches g .token quiet item m.rest m.place none := by
  generalize same : some m = o at found
  cases found with
  | token _ _ _ _ _ isToken => cases isToken
  | starEnds _ _ _ _ _ inner =>
    cases same
    exact inner
  | starMatches _ _ _ _ _ _ n inner others =>
    cases same
    exact again_ends g _ _ _ _ _ _ others item rfl rfl n rfl

/-- Two outcomes leave the same text at the same place, whatever nodes they leave. -/
def Alike : Option (Match ρ) → Option (Match ρ) → Prop
  | none, none => True
  | some m, some n => m.rest = n.rest ∧ m.place = n.place
  | _, _ => False

theorem alike_none (o : Option (Match ρ)) (alike : Alike none o) : o = none := by
  cases o with
  | none => rfl
  | some n => exact alike.elim

theorem alike_some (m : Match ρ) (o : Option (Match ρ)) (alike : Alike (some m) o) :
    ∃ n, o = some n ∧ m.rest = n.rest ∧ m.place = n.place := by
  cases o with
  | none => exact alike.elim
  | some n => exact ⟨n, rfl, alike⟩

-- What is left and where does not depend on whether nodes are left.
theorem matches_alike (mode : Mode) (quiet : Bool) (e : Peg ρ) (rest : List Char) (place : Nat)
    (o : Option (Match ρ)) (found : Matches g mode quiet e rest place o) (other : Bool) :
    ∃ o', Matches g mode other e rest place o' ∧ Alike o o' := by
  induction found with
  | token mode quiet e rest place isToken =>
    refine ⟨_, .token mode other e rest place isToken, ?_⟩
    cases e.token? rest place with
    | none => trivial
    | some m => exact ⟨rfl, rfl⟩
  | ruleFails mode quiet name rest place inner hyp =>
    obtain ⟨o, inner, alike⟩ := hyp
    cases alike_none o alike
    exact ⟨none, .ruleFails mode other name rest place inner, trivial⟩
  | ruleMatches mode quiet name rest place m inner hyp =>
    obtain ⟨o, inner, alike⟩ := hyp
    obtain ⟨n, rfl, same⟩ := alike_some m o alike
    exact ⟨_, .ruleMatches mode other name rest place n inner, same⟩
  | seqFails mode quiet first second rest place left hyp =>
    obtain ⟨o, left, alike⟩ := hyp
    cases alike_none o alike
    exact ⟨none, .seqFails mode other first second rest place left, trivial⟩
  | seqMatches mode quiet first second rest place m o left right hypLeft hypRight =>
    obtain ⟨o', left, alike⟩ := hypLeft
    obtain ⟨n, rfl, text, same⟩ := alike_some m o' alike
    rw [text, same] at hypRight
    obtain ⟨p, right, alike⟩ := hypRight
    refine ⟨_, .seqMatches mode other first second rest place n p left right, ?_⟩
    cases o with
    | none =>
      cases alike_none p alike
      trivial
    | some k =>
      obtain ⟨l, rfl, same⟩ := alike_some k p alike
      exact same
  | choiceFirst mode quiet first second rest place m left hyp =>
    obtain ⟨o, left, alike⟩ := hyp
    obtain ⟨n, rfl, same⟩ := alike_some m o alike
    exact ⟨_, .choiceFirst mode other first second rest place n left, same⟩
  | choiceSecond mode quiet first second rest place o left right hypLeft hypRight =>
    obtain ⟨o', left, alike⟩ := hypLeft
    cases alike_none o' alike
    obtain ⟨p, right, alike⟩ := hypRight
    exact ⟨p, .choiceSecond mode other first second rest place p left right, alike⟩
  | maybe mode quiet item rest place o inner hyp =>
    obtain ⟨p, inner, alike⟩ := hyp
    refine ⟨_, .maybe mode other item rest place p inner, ?_⟩
    cases o with
    | none =>
      cases alike_none p alike
      exact ⟨rfl, rfl⟩
    | some k =>
      obtain ⟨l, rfl, same⟩ := alike_some k p alike
      exact same
  | starEnds mode quiet item rest place inner hyp =>
    obtain ⟨o, inner, alike⟩ := hyp
    cases alike_none o alike
    exact ⟨_, .starEnds mode other item rest place inner, rfl, rfl⟩
  | starMatches mode quiet item rest place m n inner others hypInner hypOthers =>
    obtain ⟨o, inner, alike⟩ := hypInner
    obtain ⟨k, rfl, text, same⟩ := alike_some m o alike
    rw [text, same] at hypOthers
    obtain ⟨p, others, alike⟩ := hypOthers
    obtain ⟨l, rfl, same⟩ := alike_some n p alike
    exact ⟨_, .starMatches mode other item rest place k l inner others, same⟩
  | againEnds mode quiet item rest place inner hyp =>
    obtain ⟨o, inner, alike⟩ := hyp
    cases alike_none o alike
    exact ⟨_, .againEnds mode other item rest place inner, rfl, rfl⟩
  | againMatches mode quiet item rest place m n inner others hypInner hypOthers =>
    obtain ⟨o, inner, alike⟩ := hypInner
    obtain ⟨k, rfl, text, same⟩ := alike_some m o alike
    rw [text, same] at hypOthers
    obtain ⟨p, others, alike⟩ := hypOthers
    obtain ⟨l, rfl, same⟩ := alike_some n p alike
    exact ⟨_, .againMatches mode other item rest place k l inner others, same⟩
  | look mode quiet item rest place o inner =>
    refine ⟨_, .look mode other item rest place o inner, ?_⟩
    cases o with
    | none => trivial
    | some m => exact ⟨rfl, rfl⟩
  | refuse mode quiet item rest place o inner =>
    refine ⟨_, .refuse mode other item rest place o inner, ?_⟩
    cases o with
    | none => exact ⟨rfl, rfl⟩
    | some m => trivial

end

/-! The text that a match takes. -/

theorem bytes_cons (c : Char) (cs : List Char) : bytes (c :: cs) = c.utf8Size + bytes cs :=
  rfl

theorem bytes_append (cs ds : List Char) : bytes (cs ++ ds) = bytes cs + bytes ds := by
  induction cs with
  | nil => exact (Nat.zero_add _).symm
  | cons c cs hyp => rw [List.cons_append, bytes_cons, bytes_cons, hyp, Nat.add_assoc]

/-- What is left after some text has been taken off the front. -/
def Takes (rest : List Char) (place : Nat) (cs after : List Char) (next : Nat) : Prop :=
  rest = cs ++ after ∧ next = place + bytes cs

theorem takes_nothing (rest : List Char) (place : Nat) : Takes rest place [] rest place :=
  ⟨rfl, rfl⟩

theorem takes_more (rest : List Char) (place : Nat) (cs middle : List Char) (next : Nat) (ds after : List Char)
    (last : Nat) (first : Takes rest place cs middle next) (second : Takes middle next ds after last) :
    Takes rest place (cs ++ ds) after last := by
  obtain ⟨rfl, rfl⟩ := first
  obtain ⟨rfl, rfl⟩ := second
  exact ⟨(List.append_assoc ..).symm, by rw [bytes_append, Nat.add_assoc]⟩

theorem takes_cons (c : Char) (rest : List Char) (place : Nat) (cs after : List Char) (next : Nat)
    (taken : Takes rest (place + c.utf8Size) cs after next) : Takes (c :: rest) place (c :: cs) after next := by
  obtain ⟨rfl, rfl⟩ := taken
  exact ⟨rfl, by rw [bytes_cons, Nat.add_assoc]⟩

theorem chars_before_taken (cs rest : List Char) : charsBefore (cs ++ rest) (bytes cs) = cs := by
  induction cs with
  | nil =>
    cases rest with
    | nil => rfl
    | cons c rest => exact if_pos rfl
  | cons c cs hyp =>
    rw [List.cons_append, charsBefore, bytes_cons, if_neg, Nat.add_sub_cancel_left, hyp]
    exact Nat.ne_of_gt (Nat.add_pos_left c.utf8Size_pos _)

theorem take_text_takes (cs rest : List Char) (place : Nat) (taken : List Char × Nat)
    (takes : takeText cs rest place = some taken) : Takes rest place cs taken.1 taken.2 := by
  induction cs generalizing rest place with
  | nil =>
    cases takes
    exact takes_nothing rest place
  | cons c cs hyp =>
    cases rest with
    | nil => cases takes
    | cons d rest =>
      rw [takeText] at takes
      split at takes
      · rename_i same
        rw [← same]
        exact takes_cons c rest place cs taken.1 taken.2 (hyp rest _ takes)
      · cases takes

theorem takes_two (c d : Char) (rest : List Char) (place : Nat) (one : c.utf8Size = 1) (two : d.utf8Size = 1) :
    Takes (c :: d :: rest) place [c, d] rest (place + 2) := by
  refine ⟨rfl, ?_⟩
  rw [bytes_cons, bytes_cons, one, two]
  rfl

-- A block comment that does not end is given back as a whole.
def Within.Reached : Within → List Char → Nat → List Char → Nat → Prop
  | .blockComment opened start, rest, place, whole, first =>
    opened = whole ∧ start = first ∧ ∃ cs, Takes whole first cs rest place
  | _, rest, place, whole, first => ∃ cs, Takes whole first cs rest place

theorem skip_layout_reached (lines : Bool) (inside : Within) (rest : List Char) (place : Nat) (whole : List Char)
    (first : Nat) (reached : inside.Reached rest place whole first) :
    ∃ cs, Takes whole first cs (skipLayout lines inside rest place).1 (skipLayout lines inside rest place).2 := by
  fun_induction skipLayout lines inside rest place generalizing whole first with
  | case1 opened start place =>
    obtain ⟨rfl, rfl, _⟩ := reached
    exact ⟨[], takes_nothing _ _⟩
  | case2 inside place other =>
    cases inside with
    | nothing => exact reached
    | lineComment => exact reached
    | blockComment opened start => exact (other opened start rfl).elim
  | case3 rest place hyp =>
    obtain ⟨before, taken⟩ := reached
    obtain ⟨cs, more⟩ := hyp ('/' :: '*' :: rest) place
      ⟨rfl, rfl, ['/', '*'], takes_two '/' '*' rest place (by decide) (by decide)⟩
    exact ⟨before ++ cs, takes_more _ _ _ _ _ _ _ _ taken more⟩
  | case4 rest place multiline hyp =>
    obtain ⟨before, taken⟩ := reached
    exact hyp whole first ⟨before ++ ['/', '/'],
      takes_more _ _ _ _ _ _ _ _ taken (takes_two '/' '/' rest place (by decide) (by decide))⟩
  | case5 rest place line => exact reached
  | case6 c rest place _ _ blank hyp =>
    obtain ⟨before, taken⟩ := reached
    exact hyp whole first ⟨before ++ [c],
      takes_more _ _ _ _ _ _ _ _ taken (takes_cons c rest place [] rest _ (takes_nothing _ _))⟩
  | case7 c rest place => exact reached
  | case8 c rest place _ hyp =>
    obtain ⟨before, taken⟩ := reached
    exact hyp whole first ⟨before ++ [c],
      takes_more _ _ _ _ _ _ _ _ taken (takes_cons c rest place [] rest _ (takes_nothing _ _))⟩
  | case9 c rest place _ hyp =>
    obtain ⟨before, taken⟩ := reached
    exact hyp whole first ⟨before ++ [c],
      takes_more _ _ _ _ _ _ _ _ taken (takes_cons c rest place [] rest _ (takes_nothing _ _))⟩
  | case10 opened start rest place hyp =>
    obtain ⟨rfl, rfl, before, taken⟩ := reached
    exact hyp opened start ⟨before ++ ['*', '/'],
      takes_more _ _ _ _ _ _ _ _ taken (takes_two '*' '/' rest place (by decide) (by decide))⟩
  | case11 opened start c rest place =>
    obtain ⟨rfl, rfl, _⟩ := reached
    exact ⟨[], takes_nothing _ _⟩
  | case12 opened start c rest place _ _ hyp =>
    obtain ⟨rfl, rfl, before, taken⟩ := reached
    exact hyp opened start ⟨rfl, rfl, before ++ [c],
      takes_more _ _ _ _ _ _ _ _ taken (takes_cons c rest place [] rest _ (takes_nothing _ _))⟩

theorem skip_layout_takes (lines : Bool) (rest : List Char) (place : Nat) :
    ∃ cs, Takes rest place cs (skipLayout lines .nothing rest place).1 (skipLayout lines .nothing rest place).2 :=
  skip_layout_reached lines .nothing rest place rest place ⟨[], takes_nothing _ _⟩

theorem skip_takes (mode : Mode) (rest : List Char) (place : Nat) :
    ∃ cs, Takes rest place cs (mode.skip rest place).1 (mode.skip rest place).2 := by
  cases mode with
  | free => exact skip_layout_takes true rest place
  | tight => exact ⟨[], takes_nothing _ _⟩
  | token => exact ⟨[], takes_nothing _ _⟩

/-- The text that an expression may take inside a token, for an expression without rules. -/
def Peg.Spells {ρ : Type} : Peg ρ → List Char → Prop
  | .text ds, cs => cs = ds
  | .char member, cs => ∃ c, member c = true ∧ cs = [c]
  | .beginning, cs => cs = []
  | .ending, cs => cs = []
  | .layout _, _ => True
  | .rule _, _ => True
  | .seq first second, cs => ∃ left right, cs = left ++ right ∧ first.Spells left ∧ second.Spells right
  | .choice first second, cs => first.Spells cs ∨ second.Spells cs
  | .maybe item, cs => cs = [] ∨ item.Spells cs
  | .star item, cs => ∃ pieces : List (List Char), cs = pieces.flatten ∧ ∀ piece ∈ pieces, item.Spells piece
  | .again item, cs => ∃ pieces : List (List Char), cs = pieces.flatten ∧ ∀ piece ∈ pieces, item.Spells piece
  | .look _, cs => cs = []
  | .refuse _, cs => cs = []

theorem token_takes {ρ : Type} (e : Peg ρ) (rest : List Char) (place : Nat) (m : Match ρ)
    (found : e.token? rest place = some m) : ∃ cs, Takes rest place cs m.rest m.place ∧ e.Spells cs := by
  cases e with
  | text cs =>
    obtain ⟨taken, takes, rfl⟩ := Option.map_eq_some_iff.mp found
    exact ⟨cs, take_text_takes cs rest place taken takes, rfl⟩
  | char member =>
    cases rest with
    | nil => cases found
    | cons c rest =>
      obtain ⟨fits, same⟩ := Option.ite_none_right_eq_some.mp found
      cases same
      exact ⟨[c], takes_cons c rest place [] rest _ (takes_nothing _ _), c, fits, rfl⟩
  | beginning | ending =>
    obtain ⟨_, same⟩ := Option.ite_none_right_eq_some.mp found
    cases same
    exact ⟨[], takes_nothing _ _, rfl⟩
  | layout lines =>
    cases found
    obtain ⟨cs, takes⟩ := skip_layout_takes lines rest place
    exact ⟨cs, takes, trivial⟩
  | _ => cases found

theorem spells_more {ρ : Type} (item : Peg ρ) (cs ds : List Char) (one : item.Spells cs)
    (others : (Peg.again item).Spells ds) : (Peg.again item).Spells (cs ++ ds) := by
  obtain ⟨pieces, rfl, all⟩ := others
  refine ⟨cs :: pieces, rfl, fun piece member => ?_⟩
  rcases List.mem_cons.mp member with rfl | later
  · exact one
  · exact all piece later

theorem match_takes {ρ : Type} (g : Grammar ρ) (mode : Mode) (quiet : Bool) (e : Peg ρ) (rest : List Char)
    (place : Nat) (o : Option (Match ρ)) (found : Matches g mode quiet e rest place o) :
    ∀ m, o = some m → ∃ cs, Takes rest place cs m.rest m.place ∧ (mode = .token → e.Spells cs) := by
  induction found with
  | token mode quiet e rest place isToken =>
    intro m found
    obtain ⟨cs, takes, spells⟩ := token_takes e rest place m found
    exact ⟨cs, takes, fun _ => spells⟩
  | ruleFails | seqFails =>
    intro m none
    cases none
  | ruleMatches mode quiet name rest place n inner hyp =>
    intro m same
    cases same
    obtain ⟨cs, takes, _⟩ := hyp n rfl
    exact ⟨cs, takes, fun _ => trivial⟩
  | seqMatches mode quiet first second rest place n o left right hypLeft hypRight =>
    intro m same
    obtain ⟨last, rfl, rfl⟩ := Option.map_eq_some_iff.mp same
    obtain ⟨cs, takes, one⟩ := hypLeft n rfl
    obtain ⟨blank, skips⟩ := skip_takes mode n.rest n.place
    obtain ⟨ds, more, two⟩ := hypRight last rfl
    have whole := takes_more _ _ _ _ _ _ _ _ takes (takes_more _ _ _ _ _ _ _ _ skips more)
    refine ⟨_, whole, ?_⟩
    rintro rfl
    have nothing : blank = [] := List.append_left_eq_self.mp skips.1.symm
    subst nothing
    exact ⟨cs, ds, rfl, one rfl, two rfl⟩
  | choiceFirst mode quiet first second rest place n left hyp =>
    intro m same
    obtain ⟨cs, takes, spells⟩ := hyp m same
    exact ⟨cs, takes, fun tight => Or.inl (spells tight)⟩
  | choiceSecond mode quiet first second rest place o left right _ hyp =>
    intro m same
    obtain ⟨cs, takes, spells⟩ := hyp m same
    exact ⟨cs, takes, fun tight => Or.inr (spells tight)⟩
  | maybe mode quiet item rest place o inner hyp =>
    intro m same
    cases same
    cases o with
    | none => exact ⟨[], takes_nothing _ _, fun _ => Or.inl rfl⟩
    | some n =>
      obtain ⟨cs, takes, spells⟩ := hyp n rfl
      exact ⟨cs, takes, fun tight => Or.inr (spells tight)⟩
  | starEnds mode quiet item rest place | againEnds mode quiet item rest place =>
    intro m same
    cases same
    exact ⟨[], takes_nothing _ _, fun _ => ⟨[], rfl, fun _ member => absurd member List.not_mem_nil⟩⟩
  | starMatches mode quiet item rest place n last inner others hypInner hypOthers =>
    intro m same
    cases same
    obtain ⟨cs, takes, one⟩ := hypInner n rfl
    obtain ⟨ds, more, two⟩ := hypOthers last rfl
    exact ⟨cs ++ ds, takes_more _ _ _ _ _ _ _ _ takes more,
      fun tight => spells_more item cs ds (one tight) (two tight)⟩
  | againMatches mode quiet item rest place n last inner others hypInner hypOthers =>
    intro m same
    cases same
    obtain ⟨blank, skips⟩ := skip_takes mode rest place
    obtain ⟨cs, takes, one⟩ := hypInner n rfl
    obtain ⟨ds, more, two⟩ := hypOthers last rfl
    refine ⟨_, takes_more _ _ _ _ _ _ _ _ skips (takes_more _ _ _ _ _ _ _ _ takes more), ?_⟩
    rintro rfl
    have nothing : blank = [] := List.append_left_eq_self.mp skips.1.symm
    subst nothing
    exact spells_more item cs ds (one rfl) (two rfl)
  | look mode quiet item rest place o inner hyp =>
    intro m same
    obtain ⟨_, _, rfl⟩ := Option.map_eq_some_iff.mp same
    exact ⟨[], takes_nothing _ _, fun _ => rfl⟩
  | refuse mode quiet item rest place o inner hyp =>
    intro m same
    split at same
    · cases same
    · cases same
      exact ⟨[], takes_nothing _ _, fun _ => rfl⟩

end Ecma.Grammar
