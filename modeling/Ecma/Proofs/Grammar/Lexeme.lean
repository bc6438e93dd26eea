import Ecma.Proofs.Grammar.Word

set_option autoImplicit false

/-!
Layout, strings and the ends of statements, as a text has them: where a comment or a string that has begun
comes to its end, and what is left when layout is skipped.
-/

namespace Ecma.Grammar

open Ecma.Text

/-- The text from the end of the line on. -/
def lineAfter (cs : List Char) : List Char :=
  cs.dropWhile fun c => !isLineTerminator c

/-- The text behind the end of a block comment, which may have to end on its line. -/
def closeComment (lines : Bool) : List Char → Option (List Char)
  | [] => none
  | '*' :: '/' :: rest => some rest
  | c :: rest => if !lines && isLineTerminator c then none else closeComment lines rest

/-- The text from the first character on that a string does not go on with. -/
def stringAfter (quote : Char) : List Char → List Char
  | [] => []
  | ['\\'] => ['\\']
  | '\\' :: '\r' :: '\n' :: rest => stringAfter quote rest
  | '\\' :: _ :: rest => stringAfter quote rest
  | c :: rest => if c == quote || isLineTerminator c then c :: rest else stringAfter quote rest

/-- The text behind the end of a string. -/
def closeString (quote : Char) (cs : List Char) : Option (List Char) :=
  match stringAfter quote cs with
  | c :: rest => if c = quote then some rest else none
  | [] => none

def isLayout (lines : Bool) (c : Char) : Bool :=
  isSpace c || (lines && isLineTerminator c)

/-- There is no layout at the front of a text. -/
structure Stops (lines : Bool) (cs : List Char) : Prop where
  solid : ∀ c rest, cs = c :: rest → isLayout lines c = false
  line : ∀ rest, cs = '/' :: '/' :: rest → lines = false
  block : ∀ rest, cs = '/' :: '*' :: rest → closeComment lines rest = none

/-- What is left of a text when layout is skipped. -/
inductive Skips (lines : Bool) : List Char → List Char → Prop
  | stops (rest : List Char) (stops : Stops lines rest) : Skips lines rest rest
  | blank (c : Char) (rest after : List Char) (blank : isLayout lines c = true) (more : Skips lines rest after) :
      Skips lines (c :: rest) after
  | line (rest after : List Char) (allowed : lines = true) (more : Skips lines (lineAfter rest) after) :
      Skips lines ('/' :: '/' :: rest) after
  | block (rest middle after : List Char) (closed : closeComment lines rest = some middle)
      (more : Skips lines middle after) : Skips lines ('/' :: '*' :: rest) after

/-- What the end of a line or a comment leaves. -/
def newlineAfter : List Char → Option (List Char)
  | '\r' :: '\n' :: rest => some rest
  | '/' :: '/' :: rest => some (lineAfter rest)
  | '/' :: '*' :: rest => closeComment true rest
  | c :: rest => if isLineTerminator c then some rest else none
  | [] => none

/-- What the end of a statement leaves. -/
def endAfter : List Char → Option (List Char)
  | ';' :: rest => some rest
  | '}' :: rest => some ('}' :: rest)
  | c :: rest => newlineAfter (c :: rest)
  | [] => some []

/-- What a string leaves. -/
def stringEnd : List Char → Option (List Char)
  | '"' :: rest => closeString '"' rest
  | '\'' :: rest => closeString '\'' rest
  | _ => none

/-! Comments. -/

theorem close_comment_shorter (lines : Bool) (rest after : List Char) (closed : closeComment lines rest = some after) :
    after.length < rest.length := by
  fun_induction closeComment lines rest with
  | case1 => cases closed
  | case2 rest =>
    cases closed
    rw [List.length_cons, List.length_cons]
    omega
  | case3 => cases closed
  | case4 c rest _ _ hyp => exact Nat.lt_succ_of_lt (hyp closed)

theorem line_after_shorter (rest : List Char) : (lineAfter rest).length ≤ rest.length := by
  exact (List.dropWhile_suffix _).length_le

theorem skip_comment (lines : Bool) (opened : List Char) (start : Nat) (rest : List Char) (place : Nat) :
    (∃ after next, closeComment lines rest = some after ∧
      skipLayout lines (.blockComment opened start) rest place = skipLayout lines .nothing after next) ∨
      (closeComment lines rest = none ∧ skipLayout lines (.blockComment opened start) rest place = (opened, start)) := by
  fun_induction closeComment lines rest generalizing place with
  | case1 =>
    refine .inr ⟨rfl, ?_⟩
    rw [skipLayout]
  | case2 rest =>
    refine .inl ⟨rest, place + 2, rfl, ?_⟩
    rw [skipLayout]
  | case3 c rest other ends =>
    refine .inr ⟨rfl, ?_⟩
    rw [skipLayout, if_pos ends]
    exact other
  | case4 c rest other inside hyp =>
    have next := hyp (place + c.utf8Size)
    rw [skipLayout, if_neg inside]
    · exact next
    · exact other

theorem skip_line (rest : List Char) (place : Nat) :
    ∃ next, skipLayout true .lineComment rest place = skipLayout true .nothing (lineAfter rest) next := by
  induction rest generalizing place with
  | nil =>
    refine ⟨place, ?_⟩
    rw [skipLayout]
    · rfl
    · intro _ _ same
      cases same
  | cons c rest hyp =>
    rw [skipLayout, lineAfter, List.dropWhile_cons]
    cases ends : isLineTerminator c with
    | false =>
      obtain ⟨next, same⟩ := hyp (place + c.utf8Size)
      exact ⟨next, same⟩
    | true =>
      refine ⟨place, ?_⟩
      have other : c ≠ '/' := by
        rintro rfl
        cases ends
      rw [if_pos rfl, if_neg (by rw [Bool.not_true]; exact Bool.false_ne_true), skipLayout, ends, Bool.and_true,
        Bool.or_true, if_pos rfl]
      · rintro tail rfl
        exact absurd rfl other
      · rintro tail rfl
        exact absurd rfl other

theorem nothing_stops (lines : Bool) : Stops lines [] := by
  refine ⟨?_, ?_, ?_⟩
  · rintro _ _ ⟨⟩
  · rintro _ ⟨⟩
  · rintro _ ⟨⟩

theorem layout_skips (lines : Bool) (rest : List Char) (place : Nat) :
    Skips lines rest (skipLayout lines .nothing rest place).1 := by
  induction size : rest.length using Nat.strongRecOn generalizing rest place with
  | ind n hyp =>
  subst size
  cases rest with
  | nil =>
    rw [skipLayout]
    · exact .stops [] (nothing_stops lines)
    · intro _ _ same
      cases same
  | cons c rest =>
  by_cases comment : ∃ tail, c = '/' ∧ rest = '*' :: tail
  · obtain ⟨tail, rfl, rfl⟩ := comment
    rw [skipLayout]
    rcases skip_comment lines ('/' :: '*' :: tail) place tail (place + 2) with ⟨after, next, closed, same⟩ | ⟨opened, same⟩
    · rw [same]
      refine .block tail after _ closed (hyp _ ?_ after next rfl)
      have shorter := close_comment_shorter lines tail after closed
      rw [List.length_cons, List.length_cons]
      omega
    · rw [same]
      refine .stops _ ⟨?_, ?_, ?_⟩
      · rintro _ _ ⟨rfl⟩
        cases lines <;> rfl
      · rintro _ ⟨⟩
      · rintro _ ⟨rfl⟩
        exact opened
  by_cases line : ∃ tail, c = '/' ∧ rest = '/' :: tail
  · obtain ⟨tail, rfl, rfl⟩ := line
    rw [skipLayout]
    cases lines with
    | true =>
      obtain ⟨next, same⟩ := skip_line tail (place + 2)
      rw [if_pos rfl, same]
      refine .line tail _ rfl (hyp _ ?_ (lineAfter tail) next rfl)
      have shorter := line_after_shorter tail
      rw [List.length_cons, List.length_cons]
      omega
    | false =>
      refine .stops _ ⟨?_, fun _ _ => rfl, ?_⟩
      · rintro _ _ ⟨rfl⟩
        rfl
      · rintro _ ⟨⟩
  rw [skipLayout]
  · by_cases blank : (isSpace c || (lines && isLineTerminator c)) = true
    · rw [if_pos blank]
      exact .blank c rest _ blank (hyp _ (Nat.lt_succ_self _) rest _ rfl)
    · rw [if_neg blank]
      refine .stops _ ⟨?_, ?_, ?_⟩
      · rintro _ _ ⟨rfl⟩
        exact Bool.eq_false_iff.mpr blank
      · rintro tail ⟨rfl⟩
        exact absurd ⟨tail, rfl, rfl⟩ line
      · rintro tail ⟨rfl⟩
        exact absurd ⟨tail, rfl, rfl⟩ comment
  · rintro tail rfl rfl
    exact comment ⟨tail, rfl, rfl⟩
  · rintro tail rfl rfl
    exact line ⟨tail, rfl, rfl⟩

theorem skips_once (lines : Bool) (rest a b : List Char) (first : Skips lines rest a) (second : Skips lines rest b) :
    a = b := by
  induction first generalizing b with
  | stops rest stops =>
    cases second with
    | stops => rfl
    | blank c rest _ blank =>
      rw [stops.solid c rest rfl] at blank
      cases blank
    | line rest _ allowed =>
      rw [stops.line rest rfl] at allowed
      cases allowed
    | block rest middle _ closed =>
      rw [stops.block rest rfl] at closed
      cases closed
  | blank c rest after blank more hyp =>
    cases second with
    | stops _ stops =>
      rw [stops.solid c rest rfl] at blank
      cases blank
    | blank _ _ _ _ more => exact hyp b more
    | line => cases lines <;> cases blank
    | block => cases lines <;> cases blank
  | line rest after allowed more hyp =>
    cases second with
    | stops _ stops =>
      rw [stops.line rest rfl] at allowed
      cases allowed
    | blank _ _ _ blank => cases lines <;> cases blank
    | line _ _ _ more => exact hyp b more
  | block rest middle after closed more hyp =>
    cases second with
    | stops _ stops =>
      rw [stops.block rest rfl] at closed
      cases closed
    | blank _ _ _ blank => cases lines <;> cases blank
    | block _ other _ also more =>
      rw [closed] at also
      cases also
      exact hyp b more

theorem skips_stop (lines : Bool) (rest after : List Char) (skips : Skips lines rest after) : Stops lines after := by
  induction skips with
  | stops rest stops => exact stops
  | blank _ _ _ _ _ hyp => exact hyp
  | line _ _ _ _ hyp => exact hyp
  | block _ _ _ _ _ hyp => exact hyp

theorem skip_is (lines : Bool) (rest after : List Char) (place : Nat) (skips : Skips lines rest after) :
    (skipLayout lines .nothing rest place).1 = after := by
  exact skips_once lines rest _ _ (layout_skips lines rest place) skips

/-! Tokens of some characters. -/

section

variable (mode : Mode) (quiet : Bool) (place : Nat)

theorem first_fails (c d : Char) (cs rest : List Char) (different : c ≠ d) :
    Matches ecmascript mode quiet (.text (c :: cs)) (d :: rest) place none := by
  have found := Matches.token (g := ecmascript) mode quiet (.text (c :: cs)) (d :: rest) place rfl
  rw [Peg.token?, takeText, if_neg different] at found
  exact found

theorem nothing_fails (c : Char) (cs : List Char) :
    Matches ecmascript mode quiet (.text (c :: cs)) [] place none := by
  exact .token mode quiet (.text (c :: cs)) [] place rfl

theorem pair_fails (a b c : Char) (rest : List Char) (other : ∀ tail, c = a → rest ≠ b :: tail) :
    Matches ecmascript mode quiet (.text [a, b]) (c :: rest) place none := by
  by_cases first : a = c
  · subst first
    cases rest with
    | nil =>
      have found := Matches.token (g := ecmascript) mode quiet (.text [a, b]) [a] place rfl
      rw [Peg.token?, takeText, if_pos rfl] at found
      exact found
    | cons d rest =>
      have different : b ≠ d := fun same => other rest rfl (by rw [same])
      have found := Matches.token (g := ecmascript) mode quiet (.text [a, b]) (a :: d :: rest) place rfl
      rw [Peg.token?, takeText, if_pos rfl, takeText, if_neg different] at found
      exact found
  · exact first_fails mode quiet place a c [b] rest first

theorem char_matches (member : Char → Bool) (c : Char) (rest : List Char) (fits : member c = true) :
    Matches ecmascript mode quiet (.char member) (c :: rest) place (some ⟨rest, place + c.utf8Size, []⟩) := by
  have found := Matches.token (g := ecmascript) mode quiet (.char member) (c :: rest) place rfl
  rw [Peg.token?, if_pos fits] at found
  exact found

theorem char_fails (member : Char → Bool) (c : Char) (rest : List Char) (other : member c = false) :
    Matches ecmascript mode quiet (.char member) (c :: rest) place none := by
  have found := Matches.token (g := ecmascript) mode quiet (.char member) (c :: rest) place rfl
  rw [Peg.token?, other] at found
  exact found

/-- Nothing is skipped between the items. -/
def Mode.Dry (mode : Mode) : Prop :=
  ∀ rest place, mode.skip rest place = (rest, place)

theorem tight_dry : Mode.tight.Dry :=
  fun _ _ => rfl

theorem token_dry : Mode.token.Dry :=
  fun _ _ => rfl

variable (dry : mode.Dry)

include dry in
theorem dry_seq (first second : Es) (rest : List Char) (m : Match Rule) (o : Option (Match Rule))
    (left : Matches ecmascript mode quiet first rest place (some m))
    (right : Matches ecmascript mode quiet second m.rest m.place o) :
    Matches ecmascript mode quiet (.seq first second) rest place
      (o.map fun n => ⟨n.rest, n.place, m.nodes ++ n.nodes⟩) := by
  refine .seqMatches mode quiet first second rest place m o left ?_
  rw [dry]
  exact right

include dry in
theorem dry_again_ends (item : Es) (rest : List Char)
    (fails : Matches ecmascript mode quiet item rest place none) :
    Matches ecmascript mode quiet (.again item) rest place (some ⟨rest, place, []⟩) := by
  refine .againEnds mode quiet item rest place ?_
  rw [dry]
  exact fails

include dry in
theorem dry_again (item : Es) (rest : List Char) (m n : Match Rule)
    (inner : Matches ecmascript mode quiet item rest place (some m))
    (others : Matches ecmascript mode quiet (.again item) m.rest m.place (some n)) :
    Matches ecmascript mode quiet (.again item) rest place (some ⟨n.rest, n.place, m.nodes ++ n.nodes⟩) := by
  refine .againMatches mode quiet item rest place m n ?_ others
  rw [dry]
  exact inner

include dry in
-- A repetition begins like it goes on.
theorem dry_star (item : Es) (rest : List Char) (m : Match Rule)
    (again : Matches ecmascript mode quiet (.again item) rest place (some m)) :
    Matches ecmascript mode quiet (.star item) rest place (some m) := by
  generalize same : some m = o at again
  cases again with
  | token _ _ _ _ _ isToken => cases isToken
  | againEnds _ _ _ _ _ inner =>
    rw [dry] at inner
    exact .starEnds _ _ _ _ _ inner
  | againMatches _ _ _ _ _ n k inner others =>
    rw [dry] at inner
    exact .starMatches _ _ _ _ _ n k inner others

/-- An expression without nodes leaves this much of a text. -/
def Leaves (e : Es) (rest : List Char) (after : Option (List Char)) : Prop :=
  ∃ o, Matches ecmascript mode quiet e rest place o ∧ o.map Match.rest = after ∧ ∀ m, o = some m → m.nodes = []

theorem leaves_some (e : Es) (rest after : List Char) (leaves : Leaves mode quiet place e rest (some after)) :
    ∃ next, Matches ecmascript mode quiet e rest place (some ⟨after, next, []⟩) := by
  obtain ⟨o, found, left, silent⟩ := leaves
  obtain ⟨⟨_, next, nodes⟩, rfl, rfl⟩ := Option.map_eq_some_iff.mp left
  cases silent _ rfl
  exact ⟨next, found⟩

theorem leaves_of_some (e : Es) (rest after : List Char) (next : Nat)
    (found : Matches ecmascript mode quiet e rest place (some ⟨after, next, []⟩)) :
    Leaves mode quiet place e rest (some after) := by
  refine ⟨_, found, rfl, ?_⟩
  rintro m ⟨rfl⟩
  rfl

theorem leaves_of_none (e : Es) (rest : List Char) (found : Matches ecmascript mode quiet e rest place none) :
    Leaves mode quiet place e rest none := by
  exact ⟨none, found, rfl, fun _ same => nomatch same⟩

/-! The inside of a comment. -/

include dry in
theorem comment_goes_on (rest : List Char) :
    ∃ after next, Matches ecmascript mode quiet (.again (.seq (.refuse (Es.lit "*/")) Es.any)) rest place
        (some ⟨after, next, []⟩) ∧
      ((∃ behind, closeComment true rest = some behind ∧ after = '*' :: '/' :: behind) ∨
        (closeComment true rest = none ∧ after = [])) := by
  fun_induction closeComment true rest generalizing place with
  | case1 =>
    have fails : Matches ecmascript mode quiet (.seq (.refuse (Es.lit "*/")) Es.any) [] place none :=
      dry_seq mode quiet place dry _ _ [] _ none (.refuse _ _ _ _ _ _ (nothing_fails mode true place '*' ['/']))
        (.token mode quiet Es.any [] place rfl)
    exact ⟨[], place, dry_again_ends mode quiet place dry _ _ fails, .inr ⟨rfl, rfl⟩⟩
  | case2 rest =>
    have closes : Matches ecmascript mode true (Es.lit "*/") ('*' :: '/' :: rest) place (some ⟨rest, place + 2, []⟩) :=
      .token mode true (Es.lit "*/") ('*' :: '/' :: rest) place rfl
    have fails := Matches.seqFails mode quiet _ Es.any _ _ (Matches.refuse mode quiet _ _ _ _ closes)
    exact ⟨_, place, dry_again_ends mode quiet place dry _ _ fails, .inl ⟨rest, rfl, rfl⟩⟩
  | case3 c rest other ends => cases ends
  | case4 c rest other inside hyp =>
    have opened : Matches ecmascript mode true (Es.lit "*/") (c :: rest) place none :=
      pair_fails mode true place '*' '/' c rest fun tail same contra => other tail same contra
    have one := dry_seq mode quiet place dry _ Es.any _ _ _ (.refuse _ _ _ _ _ _ opened)
      (char_matches mode quiet place (fun _ => true) c rest rfl)
    obtain ⟨after, next, others, left⟩ := hyp (place + c.utf8Size)
    exact ⟨after, next, dry_again mode quiet place dry _ _ _ _ one others, left⟩

include dry in
theorem block_comment_leaves (rest : List Char) :
    Leaves mode quiet place Es.blockComment ('/' :: '*' :: rest) (closeComment true rest) := by
  have opens : Matches ecmascript mode quiet (Es.lit "/*") ('/' :: '*' :: rest) place (some ⟨rest, place + 2, []⟩) :=
    .token mode quiet (Es.lit "/*") ('/' :: '*' :: rest) place rfl
  obtain ⟨after, next, again, ⟨behind, closed, rfl⟩ | ⟨opened, rfl⟩⟩ :=
    comment_goes_on mode quiet (place + 2) dry rest
  · rw [closed]
    have closes : Matches ecmascript mode quiet (Es.lit "*/") ('*' :: '/' :: behind) next (some ⟨behind, next + 2, []⟩) :=
      .token mode quiet (Es.lit "*/") ('*' :: '/' :: behind) next rfl
    have inner := dry_seq mode quiet _ dry _ _ _ _ _ (dry_star mode quiet _ dry _ _ _ again) closes
    exact leaves_of_some mode quiet place _ _ _ _ (dry_seq mode quiet _ dry _ _ _ _ _ opens inner)
  · rw [opened]
    have inner := dry_seq mode quiet _ dry _ _ _ _ _ (dry_star mode quiet _ dry _ _ _ again)
      (nothing_fails mode quiet next '*' ['/'])
    exact leaves_of_none mode quiet place _ _ (dry_seq mode quiet _ dry _ _ _ _ _ opens inner)

include dry in
theorem line_goes_on (rest : List Char) :
    ∃ next, Matches ecmascript mode quiet (.again (.char fun c => !isLineTerminator c)) rest place
      (some ⟨lineAfter rest, next, []⟩) := by
  induction rest generalizing place with
  | nil => exact ⟨place, dry_again_ends mode quiet place dry _ _ (.token mode quiet (.char _) [] place rfl)⟩
  | cons c rest hyp =>
    rw [lineAfter, List.dropWhile_cons]
    cases ends : isLineTerminator c with
    | true => exact ⟨place, dry_again_ends mode quiet place dry _ _ (char_fails mode quiet place _ c rest (by rw [ends]; rfl))⟩
    | false =>
      obtain ⟨next, others⟩ := hyp (place + c.utf8Size)
      exact ⟨next, dry_again mode quiet place dry _ _ _ _
        (char_matches mode quiet place _ c rest (by rw [ends]; rfl)) others⟩

include dry in
theorem line_comment_leaves (rest : List Char) :
    Leaves mode quiet place Es.lineComment ('/' :: '/' :: rest) (some (lineAfter rest)) := by
  have opens : Matches ecmascript mode quiet (Es.lit "//") ('/' :: '/' :: rest) place (some ⟨rest, place + 2, []⟩) :=
    .token mode quiet (Es.lit "//") ('/' :: '/' :: rest) place rfl
  obtain ⟨next, others⟩ := line_goes_on mode quiet (place + 2) dry rest
  exact leaves_of_some mode quiet place _ _ _ _
    (dry_seq mode quiet place dry _ _ _ _ _ opens (dry_star mode quiet _ dry _ _ _ others))

/-! Ends of statements. -/

theorem leaves_choice (first second : Es) (rest : List Char) (after after' : Option (List Char))
    (left : Leaves mode quiet place first rest after) (right : after = none → Leaves mode quiet place second rest after') :
    Leaves mode quiet place (.choice first second) rest (after.or after') := by
  obtain ⟨o, found, rfl, silent⟩ := left
  cases o with
  | some m => exact ⟨some m, .choiceFirst _ _ _ _ _ _ m found, rfl, silent⟩
  | none =>
    obtain ⟨p, other, rfl, silent⟩ := right rfl
    exact ⟨p, .choiceSecond _ _ _ _ _ _ p found other, rfl, silent⟩

theorem leaves_first_fails (c d : Char) (cs rest : List Char) (different : c ≠ d) :
    Leaves mode quiet place (.text (c :: cs)) (d :: rest) none := by
  exact leaves_of_none mode quiet place _ _ (first_fails mode quiet place c d cs rest different)

theorem leaves_char (member : Char → Bool) (c : Char) (rest : List Char) :
    Leaves mode quiet place (.char member) (c :: rest) (if member c then some rest else none) := by
  cases fits : member c with
  | true => exact leaves_of_some mode quiet place _ _ _ _ (char_matches mode quiet place member c rest fits)
  | false => exact leaves_of_none mode quiet place _ _ (char_fails mode quiet place member c rest fits)

theorem line_end_leaves (c : Char) (rest : List Char) (other : ∀ tail, c = '\r' → rest ≠ '\n' :: tail) :
    Leaves mode quiet place Es.lineTerminator (c :: rest) (if isLineTerminator c then some rest else none) := by
  have single := leaves_of_none mode quiet place _ _ (pair_fails mode quiet place '\r' '\n' c rest other)
  exact leaves_choice mode quiet place _ _ _ _ _ single fun _ => leaves_char mode quiet place isLineTerminator c rest

theorem no_comment (second c : Char) (rest : List Char) (e : Es) (other : ∀ tail, c = '/' → rest ≠ second :: tail) :
    Leaves mode quiet place (.seq (.text ['/', second]) e) (c :: rest) none := by
  exact leaves_of_none mode quiet place _ _
    (.seqFails _ _ _ _ _ _ (pair_fails mode quiet place '/' second c rest other))

include dry in
theorem newline_leaves (rest : List Char) : Leaves mode quiet place Es.newline rest (newlineAfter rest) := by
  have otherwise (c : Char) (rest : List Char) (ends : ∀ tail, c = '\r' → rest ≠ '\n' :: tail)
      (first : isLineTerminator c = false) (after : Option (List Char))
      (comment : Leaves mode quiet place (.choice Es.lineComment Es.blockComment) (c :: rest) after) :
      Leaves mode quiet place Es.newline (c :: rest) after := by
    have ended := line_end_leaves mode quiet place c rest ends
    rw [first] at ended
    exact leaves_choice mode quiet place _ _ _ _ _ ended fun _ => comment
  fun_cases newlineAfter rest with
  | case1 rest =>
    have ended : Matches ecmascript mode quiet (Es.lit "\r\n") ('\r' :: '\n' :: rest) place (some ⟨rest, place + 2, []⟩) :=
      .token mode quiet (Es.lit "\r\n") ('\r' :: '\n' :: rest) place rfl
    exact leaves_of_some mode quiet place _ _ _ _ (.choiceFirst _ _ _ _ _ _ _ (.choiceFirst _ _ _ _ _ _ _ ended))
  | case2 rest =>
    refine otherwise '/' ('/' :: rest) (fun _ contra => nomatch contra) rfl _ ?_
    exact leaves_choice mode quiet place _ _ _ (some _) none (line_comment_leaves mode quiet place dry rest)
      fun contra => nomatch contra
  | case3 rest =>
    refine otherwise '/' ('*' :: rest) (fun _ contra => nomatch contra) rfl _ ?_
    exact leaves_choice mode quiet place _ _ _ none _ (no_comment mode quiet place '/' '/' ('*' :: rest) _ fun _ _ contra => nomatch contra)
      fun _ => block_comment_leaves mode quiet place dry rest
  | case4 c rest other line block ends =>
    have ended := line_end_leaves mode quiet place c rest fun tail same contra => other tail same contra
    rw [ends] at ended
    exact leaves_choice mode quiet place _ _ _ (some rest) none ended fun contra => nomatch contra
  | case5 c rest other line block goes =>
    refine otherwise c rest (fun tail same contra => other tail same contra) (Bool.eq_false_iff.mpr goes) _ ?_
    have one := no_comment mode quiet place '/' c rest (.star (.char fun c => !isLineTerminator c))
      fun tail same contra => line tail same contra
    have two := no_comment mode quiet place '*' c rest
      (.seq (.star (.seq (.refuse (Es.lit "*/")) Es.any)) (Es.lit "*/")) fun tail same contra => block tail same contra
    exact leaves_choice mode quiet place _ _ _ none none one fun _ => two
  | case6 =>
    have absent (c : Char) (cs : List Char) : Leaves mode quiet place (.text (c :: cs)) [] none :=
      leaves_of_none mode quiet place _ _ (nothing_fails mode quiet place c cs)
    have ended : Leaves mode quiet place Es.lineTerminator [] none :=
      leaves_choice mode quiet place _ _ _ none none (absent '\r' ['\n']) fun _ =>
        leaves_of_none mode quiet place _ _ (.token mode quiet (.char _) [] place rfl)
    have one : Leaves mode quiet place Es.lineComment [] none :=
      leaves_of_none mode quiet place _ _ (.seqFails _ _ _ _ _ _ (nothing_fails mode quiet place '/' ['/']))
    have two : Leaves mode quiet place Es.blockComment [] none :=
      leaves_of_none mode quiet place _ _ (.seqFails _ _ _ _ _ _ (nothing_fails mode quiet place '/' ['*']))
    exact leaves_choice mode quiet place _ _ _ none none ended fun _ =>
      leaves_choice mode quiet place _ _ _ none none one fun _ => two

include dry in
theorem end_leaves (rest : List Char) :
    Leaves mode quiet place (Es.first [Es.lit ";", Es.newline, .look (Es.lit "\x7d"), .refuse Es.any]) rest
      (endAfter rest) := by
  have newline := newline_leaves mode quiet place dry rest
  have brace (c : Char) (rest : List Char) (other : c ≠ '}') :
      Leaves mode quiet place (.choice (.look (Es.lit "\x7d")) (.refuse Es.any)) (c :: rest) none :=
    leaves_choice mode quiet place _ _ _ none none
      (leaves_of_none mode quiet place _ _ (.look _ _ _ _ _ _ (first_fails mode true place '}' c [] rest (Ne.symm other))))
      fun _ => leaves_of_none mode quiet place _ _
        (.refuse _ _ _ _ _ _ (char_matches mode true place (fun _ => true) c rest rfl))
  fun_cases endAfter rest with
  | case1 rest =>
    have semicolon : Matches ecmascript mode quiet (Es.lit ";") (';' :: rest) place (some ⟨rest, place + 1, []⟩) :=
      .token mode quiet (Es.lit ";") (';' :: rest) place rfl
    exact leaves_of_some mode quiet place _ _ _ _ (.choiceFirst _ _ _ _ _ _ _ semicolon)
  | case2 rest =>
    have closes : Matches ecmascript mode true (Es.lit "\x7d") ('}' :: rest) place (some ⟨rest, place + 1, []⟩) :=
      .token mode true (Es.lit "\x7d") ('}' :: rest) place rfl
    have ahead := leaves_of_some mode quiet place _ _ _ _ (Matches.look mode quiet _ _ _ _ closes)
    exact leaves_choice mode quiet place _ _ _ none _ (leaves_first_fails mode quiet place ';' '}' [] rest (by decide))
      fun _ => leaves_choice mode quiet place _ _ _ none _ newline
        fun _ => leaves_choice mode quiet place _ _ _ (some _) none ahead fun contra => nomatch contra
  | case3 c rest semicolon closing =>
    have first := leaves_first_fails mode quiet place ';' c [] rest fun same => semicolon same.symm
    have last := brace c rest fun same => closing same
    have both := leaves_choice mode quiet place _ _ _ _ none newline fun _ => last
    rw [Option.or_none] at both
    exact leaves_choice mode quiet place _ _ _ none _ first fun _ => both
  | case4 =>
    have nothing (c : Char) : Leaves mode quiet place (.text [c]) [] none :=
      leaves_of_none mode quiet place _ _ (nothing_fails mode quiet place c [])
    have ahead : Leaves mode quiet place (.look (Es.lit "\x7d")) [] none :=
      leaves_of_none mode quiet place _ _ (.look _ _ _ _ _ _ (nothing_fails mode true place '}' []))
    have spent : Leaves mode quiet place (.refuse Es.any) [] (some []) :=
      leaves_of_some mode quiet place _ _ _ _ (.refuse _ _ _ _ _ _ (.token mode true Es.any [] place rfl))
    exact leaves_choice mode quiet place _ _ _ none _ (nothing ';') fun _ =>
      leaves_choice mode quiet place _ _ _ none _ newline fun _ =>
        leaves_choice mode quiet place _ _ _ none _ ahead fun _ => spent

include dry in
/-- The end of a statement stands behind layout on the line. -/
theorem statement_end_leaves (rest : List Char) :
    Leaves mode quiet place Es.statementEnd rest (endAfter (skipLayout false .nothing rest place).1) := by
  have skips : Matches ecmascript mode quiet Es.hs rest place (some ⟨_, _, []⟩) :=
    .token mode quiet (.layout false) rest place rfl
  obtain ⟨o, ended, left, silent⟩ := end_leaves mode quiet (skipLayout false .nothing rest place).2 dry
    (skipLayout false .nothing rest place).1
  refine ⟨_, dry_seq mode quiet place dry _ _ rest _ o skips ended, ?_, ?_⟩
  · rw [← left, Option.map_map]
    rfl
  · intro m same
    obtain ⟨n, rfl, rfl⟩ := Option.map_eq_some_iff.mp same
    exact silent n rfl

/-! Strings. -/

theorem no_escape (c : Char) (rest : List Char) (alone : c = '\\' → rest = [] → False)
    (single : ∀ d tail, c = '\\' → rest = d :: tail → False) : c ≠ '\\' := by
  intro same
  cases rest with
  | nil => exact alone same rfl
  | cons d rest => exact single d rest same rfl

-- What stands between the quotes.
def Es.stringPart (quote : Char) : Es :=
  .choice (.char fun c => !(c == quote || c == '\\' || isLineTerminator c)) Es.escapeSequence

include dry in
theorem string_goes_on (quote : Char) (rest : List Char) :
    ∃ next, Matches ecmascript mode quiet (.again (Es.stringPart quote)) rest place
      (some ⟨stringAfter quote rest, next, []⟩) := by
  have plain (c : Char) (rest : List Char) (place : Nat) (other : c ≠ '\\') :
      Matches ecmascript mode quiet Es.escapeSequence (c :: rest) place none :=
    .seqFails _ _ _ _ _ _ (first_fails mode quiet place '\\' c [] rest (Ne.symm other))
  have escaped (rest : List Char) (place : Nat) (o : Option (Match Rule))
      (escape : Matches ecmascript mode quiet (.choice (Es.lit "\r\n") Es.any) rest (place + 1) o) :
      Matches ecmascript mode quiet (Es.stringPart quote) ('\\' :: rest) place
        (o.map fun n => ⟨n.rest, n.place, [] ++ n.nodes⟩) := by
    have begins : Matches ecmascript mode quiet (Es.lit "\\") ('\\' :: rest) place (some ⟨rest, place + 1, []⟩) :=
      .token mode quiet (Es.lit "\\") ('\\' :: rest) place rfl
    have other : (fun c => !(c == quote || c == '\\' || isLineTerminator c)) '\\' = false := by
      dsimp only
      rw [beq_self_eq_true, Bool.or_true, Bool.true_or]
      rfl
    exact .choiceSecond _ _ _ _ _ _ _ (char_fails mode quiet place _ '\\' rest other)
      (dry_seq mode quiet place dry _ _ _ _ o begins escape)
  fun_induction stringAfter quote rest generalizing place with
  | case1 =>
    have fails : Matches ecmascript mode quiet (Es.stringPart quote) [] place none :=
      .choiceSecond _ _ _ _ _ _ _ (.token mode quiet (.char _) [] place rfl)
        (.seqFails _ _ _ _ _ _ (nothing_fails mode quiet place '\\' []))
    exact ⟨place, dry_again_ends mode quiet place dry _ _ fails⟩
  | case2 =>
    have fails := escaped [] place none (.choiceSecond _ _ _ _ _ _ _ (nothing_fails mode quiet _ '\r' ['\n'])
      (.token mode quiet Es.any [] _ rfl))
    exact ⟨place, dry_again_ends mode quiet place dry _ _ fails⟩
  | case3 rest hyp =>
    have ended : Matches ecmascript mode quiet (Es.lit "\r\n") ('\r' :: '\n' :: rest) (place + 1)
        (some ⟨rest, place + 3, []⟩) :=
      .token mode quiet (Es.lit "\r\n") ('\r' :: '\n' :: rest) (place + 1) rfl
    obtain ⟨next, others⟩ := hyp (place + 3)
    exact ⟨next, dry_again mode quiet place dry _ _ _ _
      (escaped _ place _ (.choiceFirst _ _ _ _ _ _ _ ended)) others⟩
  | case4 c rest other hyp =>
    have single : Matches ecmascript mode quiet (Es.lit "\r\n") (c :: rest) (place + 1) none :=
      pair_fails mode quiet _ '\r' '\n' c rest fun tail same contra => other tail same contra
    obtain ⟨next, others⟩ := hyp (place + 1 + c.utf8Size)
    exact ⟨next, dry_again mode quiet place dry _ _ _ _
      (escaped _ place _ (.choiceSecond _ _ _ _ _ _ _ single
        (char_matches mode quiet (place + 1) (fun _ => true) c rest rfl))) others⟩
  | case5 c rest alone twice single ends =>
    have other : c ≠ '\\' := no_escape c rest alone single
    have stops : (!(c == quote || c == '\\' || isLineTerminator c)) = false := by
      rcases Bool.or_eq_true_iff.mp ends with same | line
      · rw [same]
        rfl
      · rw [line, Bool.or_true]
        rfl
    exact ⟨place, dry_again_ends mode quiet place dry _ _ (.choiceSecond _ _ _ _ _ _ _
      (char_fails mode quiet place _ c rest stops) (plain c rest place other))⟩
  | case6 c rest alone twice single goes hyp =>
    have other : c ≠ '\\' := no_escape c rest alone single
    have fits : (!(c == quote || c == '\\' || isLineTerminator c)) = true := by
      rw [Bool.not_eq_true, Bool.or_eq_false_iff] at goes
      rw [goes.1, goes.2, beq_eq_false_iff_ne.mpr other]
      rfl
    obtain ⟨next, others⟩ := hyp (place + c.utf8Size)
    exact ⟨next, dry_again mode quiet place dry _ _ _ _
      (.choiceFirst _ _ _ _ _ _ _ (char_matches mode quiet place _ c rest fits)) others⟩

include dry in
theorem quoted_leaves (quote : Char) (rest : List Char) :
    Leaves mode quiet place (Es.quoted quote) (quote :: rest) (closeString quote rest) := by
  have opens : Matches ecmascript mode quiet (.text [quote]) (quote :: rest) place
      (some ⟨rest, place + quote.utf8Size, []⟩) := by
    have found := Matches.token (g := ecmascript) mode quiet (.text [quote]) (quote :: rest) place rfl
    rw [Peg.token?, takeText, if_pos rfl] at found
    exact found
  obtain ⟨next, others⟩ := string_goes_on mode quiet (place + quote.utf8Size) dry quote rest
  have string := dry_star mode quiet _ dry _ _ _ others
  rw [closeString]
  cases left : stringAfter quote rest with
  | nil =>
    rw [left] at string
    exact leaves_of_none mode quiet place _ _ (dry_seq mode quiet place dry _ _ _ _ none opens
      (dry_seq mode quiet _ dry _ _ _ _ none string (nothing_fails mode quiet next quote [])))
  | cons c after =>
    rw [left] at string
    by_cases same : c = quote
    · subst same
      have closes : Matches ecmascript mode quiet (.text [c]) (c :: after) next
          (some ⟨after, next + c.utf8Size, []⟩) := by
        have found := Matches.token (g := ecmascript) mode quiet (.text [c]) (c :: after) next rfl
        rw [Peg.token?, takeText, if_pos rfl] at found
        exact found
      dsimp only
      rw [if_pos rfl]
      exact leaves_of_some mode quiet place _ _ _ _ (dry_seq mode quiet place dry _ _ _ _ _ opens
        (dry_seq mode quiet _ dry _ _ _ _ _ string closes))
    · dsimp only
      rw [if_neg same]
      exact leaves_of_none mode quiet place _ _ (dry_seq mode quiet place dry _ _ _ _ none opens
        (dry_seq mode quiet _ dry _ _ _ _ none string (first_fails mode quiet next quote c [] after (Ne.symm same))))

include dry in
theorem string_leaves (rest : List Char) :
    Leaves mode quiet place (Es.body .stringLiteral) rest (stringEnd rest) := by
  have other (quote c : Char) (rest : List Char) (different : c ≠ quote) :
      Leaves mode quiet place (Es.quoted quote) (c :: rest) none :=
    leaves_of_none mode quiet place _ _ (.seqFails _ _ _ _ _ _
      (first_fails mode quiet place quote c [] rest (Ne.symm different)))
  fun_cases stringEnd rest with
  | case1 rest =>
    have both := leaves_choice mode quiet place _ (Es.quoted '\'') _ _ none
      (quoted_leaves mode quiet place dry '"' rest) fun _ => other '\'' '"' rest (by decide)
    rwa [Option.or_none] at both
  | case2 rest =>
    exact leaves_choice mode quiet place _ _ _ none _ (other '"' '\'' rest (by decide)) fun _ =>
      quoted_leaves mode quiet place dry '\'' rest
  | case3 rest double single =>
    have neither (quote : Char) (different : ∀ tail, rest ≠ quote :: tail) :
        Leaves mode quiet place (Es.quoted quote) rest none := by
      cases rest with
      | nil => exact leaves_of_none mode quiet place _ _ (.seqFails _ _ _ _ _ _ (nothing_fails mode quiet place quote []))
      | cons c rest => exact other quote c rest fun same => different rest (by rw [same])
    exact leaves_choice mode quiet place _ _ _ none none (neither '"' double) fun _ => neither '\'' single

end

end Ecma.Grammar
