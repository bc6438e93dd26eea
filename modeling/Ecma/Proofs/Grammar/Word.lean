import Ecma.Proofs.Grammar.Genuine

set_option autoImplicit false

/-!
The parts that a node can have, read off the body of its rule: which rules can be among them, and, where
nothing is repeated, which sequences of rules there are.
-/

namespace Ecma.Grammar

namespace Peg

variable {ρ : Type} (g : Grammar ρ) (mode : Mode)

/-- The rules that can be among the parts. -/
def offers : Peg ρ → List ρ
  | .rule name => if (g.kind name).counts mode then [name] else []
  | .seq first second => offers first ++ offers second
  | .choice first second => offers first ++ offers second
  | .maybe item => offers item
  | .star item => offers item
  | .again item => offers item
  | _ => []

/-- The sequences of rules that the parts can have, unless something is repeated. -/
def options : Peg ρ → Option (List (List ρ))
  | .rule name => some [if (g.kind name).counts mode then [name] else []]
  | .seq first second =>
    match options first, options second with
    | some xs, some ys => some (xs.flatMap fun x => ys.map (x ++ ·))
    | _, _ => none
  | .choice first second =>
    match options first, options second with
    | some xs, some ys => some (xs ++ ys)
    | _, _ => none
  | .maybe item => (options item).map ([] :: ·)
  | .star item => if offers g mode item = [] then some [[]] else none
  | .again item => if offers g mode item = [] then some [[]] else none
  | _ => some [[]]

end Peg

section

variable {ρ : Type} (g : Grammar ρ) (mode : Mode)

theorem leaves_offered (e : Peg ρ) (rules : List ρ) (leaves : e.Leaves g mode rules) :
    ∀ name ∈ rules, name ∈ e.offers g mode := by
  have pieces_offered (item : Peg ρ) (hyp : ∀ rules, item.Leaves g mode rules → ∀ name ∈ rules, name ∈ item.offers g mode)
      (pieces : List (List ρ)) (all : ∀ piece ∈ pieces, item.Leaves g mode piece) :
      ∀ name ∈ pieces.flatten, name ∈ item.offers g mode := by
    intro name member
    obtain ⟨piece, inside, found⟩ := List.mem_flatten.mp member
    exact hyp piece (all piece inside) name found
  induction e generalizing rules with
  | rule name =>
    rw [leaves]
    exact fun _ member => member
  | seq first second hypFirst hypSecond =>
    obtain ⟨left, right, rfl, one, two⟩ := leaves
    intro name member
    refine List.mem_append.mpr ((List.mem_append.mp member).imp ?_ ?_)
    · exact hypFirst left one name
    · exact hypSecond right two name
  | choice first second hypFirst hypSecond =>
    intro name member
    rcases leaves with one | two
    · exact List.mem_append_left _ (hypFirst rules one name member)
    · exact List.mem_append_right _ (hypSecond rules two name member)
  | maybe item hyp =>
    rcases leaves with rfl | one
    · exact fun _ member => absurd member List.not_mem_nil
    · exact hyp rules one
  | star item hyp =>
    obtain ⟨pieces, rfl, all⟩ := leaves
    exact pieces_offered item hyp pieces all
  | again item hyp =>
    obtain ⟨pieces, rfl, all⟩ := leaves
    exact pieces_offered item hyp pieces all
  | _ =>
    rw [leaves]
    exact fun _ member => absurd member List.not_mem_nil

-- A repetition that offers no rules leaves none.
theorem pieces_silent (item : Peg ρ) (silent : item.offers g mode = []) (pieces : List (List ρ))
    (all : ∀ piece ∈ pieces, item.Leaves g mode piece) : pieces.flatten = [] := by
  rw [List.flatten_eq_nil_iff]
  intro piece member
  refine List.eq_nil_iff_forall_not_mem.mpr fun name inside => ?_
  have offered := leaves_offered g mode item piece (all piece member) name inside
  rw [silent] at offered
  exact absurd offered List.not_mem_nil

theorem leaves_option (e : Peg ρ) (rules : List ρ) (leaves : e.Leaves g mode rules) :
    ∀ all, e.options g mode = some all → rules ∈ all := by
  induction e generalizing rules with
  | rule name =>
    rintro _ ⟨rfl⟩
    rw [leaves]
    exact List.mem_singleton_self _
  | seq first second hypFirst hypSecond =>
    obtain ⟨left, right, rfl, one, two⟩ := leaves
    intro all options
    rw [Peg.options] at options
    split at options
    · rename_i xs ys atFirst atSecond
      cases options
      exact List.mem_flatMap.mpr ⟨left, hypFirst left one xs atFirst,
        List.mem_map.mpr ⟨right, hypSecond right two ys atSecond, rfl⟩⟩
    · cases options
  | choice first second hypFirst hypSecond =>
    intro all options
    rw [Peg.options] at options
    split at options
    · rename_i xs ys atFirst atSecond
      cases options
      rcases leaves with one | two
      · exact List.mem_append_left _ (hypFirst rules one xs atFirst)
      · exact List.mem_append_right _ (hypSecond rules two ys atSecond)
    · cases options
  | maybe item hyp =>
    intro all options
    obtain ⟨xs, atItem, rfl⟩ := Option.map_eq_some_iff.mp options
    rcases leaves with rfl | one
    · exact List.mem_cons_self
    · exact List.mem_cons_of_mem _ (hyp rules one xs atItem)
  | star item | again item =>
    intro all options
    obtain ⟨pieces, rfl, members⟩ := leaves
    obtain ⟨silent, same⟩ := Option.ite_none_right_eq_some.mp options
    cases same
    rw [pieces_silent g mode item silent pieces members]
    exact List.mem_singleton_self _
  | _ =>
    rintro _ ⟨rfl⟩
    rw [leaves]
    exact List.mem_singleton_self _

end

/-! The nodes of the ECMAScript grammar. -/

namespace Es

/-- A rule stands outside tokens in one of these modes. -/
def outside : List Mode :=
  [.free, .tight]

/-- Whatever the rules of the parts of a node are, they pass a check. -/
def always (name : Rule) (check : List Rule → Bool) : Bool :=
  outside.all fun mode => ((body name).options ecmascript ((kind name).inside mode)).any (·.all check)

/-- The parts of a node are of these rules only. -/
def among (name : Rule) (rules : List Rule) : Bool :=
  outside.all fun mode => ((body name).offers ecmascript ((kind name).inside mode)).all (rules.contains ·)

end Es

section

variable (text : List Char) (node : Node Rule) (genuine : node.Genuine ecmascript text) (name : Rule)
  (rule : node.rule = name)
include genuine rule

theorem genuine_leaves : ∃ mode ∈ Es.outside,
    (Es.body name).Leaves ecmascript ((Es.kind name).inside mode) (node.parts.map Node.rule) := by
  obtain ⟨mode, before, input, m, same, _, counts, _, records⟩ := genuine_match ecmascript text node genuine
  have leaves := records.leaves rfl
  have parts : node.parts = m.nodes := congrArg Node.parts same
  rw [← parts] at leaves
  rw [rule] at counts leaves
  change (Es.kind name).counts mode = true at counts
  change (Es.body name).Leaves ecmascript ((Es.kind name).inside mode) _ at leaves
  cases mode with
  | free => exact ⟨.free, List.mem_cons_self, leaves⟩
  | tight => exact ⟨.tight, List.mem_cons_of_mem _ List.mem_cons_self, leaves⟩
  | token =>
    refine ⟨.free, List.mem_cons_self, ?_⟩
    cases kind : Es.kind name with
    | free | tight =>
      rw [kind] at leaves
      exact leaves
    | plain | token =>
      rw [kind] at counts
      cases counts

theorem parts_pass (check : List Rule → Bool) (always : Es.always name check = true) :
    check (node.parts.map Node.rule) = true := by
  obtain ⟨mode, outside, leaves⟩ := genuine_leaves text node genuine name rule
  have passes := List.all_eq_true.mp always mode outside
  rw [Option.any_eq_true] at passes
  obtain ⟨all, options, passes⟩ := passes
  exact List.all_eq_true.mp passes _ (leaves_option ecmascript _ _ _ leaves all options)

theorem parts_among (rules : List Rule) (among : Es.among name rules = true) :
    ∀ part ∈ node.parts, part.rule ∈ rules := by
  obtain ⟨mode, outside, leaves⟩ := genuine_leaves text node genuine name rule
  have offers := List.all_eq_true.mp (List.all_eq_true.mp among mode outside)
  intro part member
  exact List.contains_iff_mem.mp (offers _ (leaves_offered ecmascript _ _ _ leaves part.rule
    (List.mem_map_of_mem member)))

theorem parts_none (among : Es.among name [] = true) : node.parts = [] := by
  refine List.eq_nil_iff_forall_not_mem.mpr fun part member => ?_
  exact absurd (parts_among text node genuine name rule [] among part member) List.not_mem_nil

end

theorem operator_leaf (op : Infix) : Es.among (.operator op) [] = true := by
  cases op <;> decide +kernel

/-- Whenever a node has so many parts, the one at a place is of a rule. -/
def Es.places (name : Rule) (count index : Nat) (expected : Rule) : Bool :=
  Es.always name fun rules => rules.length != count || rules[index]? == some expected

theorem part_at (text : List Char) (name : Rule) (s t : Nat) (i : List Char) (parts : List (Node Rule))
    (genuine : (Node.mk name s t i parts).Genuine ecmascript text) (count index : Nat) (expected : Rule)
    (places : Es.places name count index expected = true) (long : parts.length = count) :
    (parts.map Node.rule)[index]? = some expected := by
  have passes := parts_pass text _ genuine name rfl _ places
  rw [Node.parts, List.length_map, long, bne_self_eq_false, Bool.false_or] at passes
  exact eq_of_beq passes

-- Nothing follows a `new` expression without arguments.
theorem alone_when_new (text : List Char) (s t : Nat) (i : List Char) (first : Node Rule) (rest : List (Node Rule))
    (genuine : (Node.mk .leftHandSideExpression s t i (first :: rest)).Genuine ecmascript text)
    (new : first.rule = .newExpression) : rest = [] := by
  obtain ⟨mode, _, leaves⟩ := genuine_leaves text _ genuine _ rfl
  change (Es.body .leftHandSideExpression).Leaves ecmascript .tight (first.rule :: rest.map Node.rule) at leaves
  rcases leaves with ⟨left, right, same, member, _⟩ | ⟨_, _, same, ⟨_, _, rfl, rfl, rfl⟩, _, _, rfl, rfl, only⟩
  · change left = [.memberExpression] at member
    rw [member] at same
    cases new.symm.trans (List.cons.inj same).1
  · rw [only] at same
    exact List.map_eq_nil_iff.mp (List.cons.inj same).2

end Ecma.Grammar

/-!
The text of an identifier: it begins with a character that may begin one, goes on with characters that may
stand in one, either of them possibly as an escape, and is no reserved word.
-/

namespace Ecma.Grammar

open Ecma.Text

def isNameStart (c : Char) : Bool :=
  isLetter c || c == '$' || c == '_'

def isNamePart (c : Char) : Bool :=
  isLetterOrMark c || c == '$' || c == '_' || c == '\u200C' || c == '\u200D'

/-- The reserved words of all code. -/
def reservedWords : List String :=
  ["break", "case", "catch", "continue", "debugger", "default", "delete", "do", "else", "finally", "for",
    "function", "if", "instanceof", "in", "new", "return", "switch", "this", "throw", "try", "typeof", "var",
    "void", "while", "with", "class", "const", "enum", "export", "extends", "import", "super", "null", "true",
    "false"]

/-- One character of an identifier as it is written, and whether it is an escape. -/
inductive Letter (allowed : Char → Bool) : Bool → List Char → Prop
  | plain (c : Char) (fits : allowed c = true) : Letter allowed false [c]
  | escape (a b c d : Char) (digits : ∀ x ∈ [a, b, c, d], Es.isHexDigit x = true) :
      Letter allowed true ['\\', 'u', a, b, c, d]

/-- The text of an identifier name. -/
def NameText (cs : List Char) : Prop :=
  ∃ (first : List Char) (others : List (List Char)), cs = first ++ others.flatten ∧
    (∃ escaped, Letter isNameStart escaped first) ∧ ∀ piece ∈ others, ∃ escaped, Letter isNamePart escaped piece

/-! Reserved words. -/

theorem take_text_whole (cs rest : List Char) (place : Nat) :
    takeText cs (cs ++ rest) place = some (rest, place + bytes cs) := by
  induction cs generalizing place with
  | nil => rfl
  | cons c cs hyp =>
    rw [List.cons_append, takeText, if_pos rfl, hyp, bytes_cons, Nat.add_assoc]

theorem take_text_none (cs rest : List Char) (place : Nat) (other : ¬ cs <+: rest) :
    takeText cs rest place = none := by
  cases taken : takeText cs rest place with
  | none => rfl
  | some left =>
    obtain ⟨whole, _⟩ := take_text_takes cs rest place left taken
    exact absurd ⟨left.1, whole.symm⟩ other

theorem text_matches (quiet : Bool) (cs rest : List Char) (place : Nat) :
    Matches ecmascript .token quiet (.text cs) (cs ++ rest) place (some ⟨rest, place + bytes cs, []⟩) := by
  have found := Matches.token (g := ecmascript) .token quiet (.text cs) (cs ++ rest) place rfl
  rw [Peg.token?, take_text_whole] at found
  exact found

theorem text_fails (quiet : Bool) (cs rest : List Char) (place : Nat) (other : ¬ cs <+: rest) :
    Matches ecmascript .token quiet (.text cs) rest place none := by
  have found := Matches.token (g := ecmascript) .token quiet (.text cs) rest place rfl
  rw [Peg.token?, take_text_none cs rest place other] at found
  exact found

/-- A text begins with a word. -/
def beginsWith (cs : List Char) (word : String) : Bool :=
  word.toList.isPrefixOf cs

-- Of several words the first one that fits is taken.
theorem words_match (quiet : Bool) (ws : List String) (word : String) (rest : List Char) (place : Nat)
    (found : ws.find? (beginsWith (word.toList ++ rest)) = some word) :
    Matches ecmascript .token quiet (Es.words ws) (word.toList ++ rest) place
      (some ⟨rest, place + bytes word.toList, []⟩) := by
  induction ws with
  | nil => cases found
  | cons w ws hyp =>
    have here (fits : beginsWith (word.toList ++ rest) w = true) : w = word := by
      rw [List.find?_cons_of_pos fits] at found
      exact Option.some.inj found
    cases ws with
    | nil =>
      cases fits : beginsWith (word.toList ++ rest) w with
      | true =>
        rw [here fits]
        exact text_matches quiet word.toList rest place
      | false =>
        rw [List.find?_cons_of_neg (Bool.eq_false_iff.mp fits)] at found
        cases found
    | cons v ws =>
      cases fits : beginsWith (word.toList ++ rest) w with
      | true =>
        rw [here fits]
        exact .choiceFirst _ _ _ _ _ _ _ (text_matches quiet word.toList rest place)
      | false =>
        have other : ¬ w.toList <+: word.toList ++ rest := fun contra =>
          Bool.eq_false_iff.mp fits (List.isPrefixOf_iff_prefix.mpr contra)
        rw [List.find?_cons_of_neg (Bool.eq_false_iff.mp fits)] at found
        exact .choiceSecond _ _ _ _ _ _ _ (text_fails quiet w.toList _ place other) (hyp found)

theorem part_matches (quiet : Bool) (c : Char) (rest : List Char) (place : Nat) (part : isNamePart c = true) :
    ∃ m, Matches ecmascript .token quiet Es.identifierPart (c :: rest) place (some m) := by
  have found := Matches.token (g := ecmascript) .token quiet (.char isNamePart) (c :: rest) place rfl
  rw [Peg.token?, if_pos part] at found
  exact ⟨_, .choiceFirst _ _ _ _ _ _ _ found⟩

-- A text of letters is a prefix of a word exactly when it is one with something else behind the word.
theorem prefix_before (cs word rest : List Char) (letters : ∀ c ∈ cs, isNamePart c = true)
    (ends : ∀ c, rest.head? = some c → isNamePart c = false) :
    cs <+: word ++ rest ↔ cs <+: word := by
  constructor
  · intro before
    rcases List.prefix_or_prefix_of_prefix before (List.prefix_append word rest) with inside | ⟨tail, rfl⟩
    · exact inside
    have more := (List.prefix_append_right_inj word).mp before
    cases tail with
    | nil => exact ⟨[], (List.append_nil _).trans (List.append_nil word)⟩
    | cons c tail =>
      obtain ⟨left, rfl⟩ := more
      have part := letters c (List.mem_append_right _ List.mem_cons_self)
      rw [ends c rfl] at part
      cases part
  · exact fun inside => inside.trans (List.prefix_append word rest)

theorem reserved_letters : ∀ word ∈ reservedWords, ∀ c ∈ word.toList, isNamePart c = true := by
  have all : reservedWords.all (fun word => word.toList.all isNamePart) = true := by
    decide +kernel
  exact fun word member => List.all_eq_true.mp (List.all_eq_true.mp all word member)

theorem reserved_first : ∀ word ∈ reservedWords,
    reservedWords.find? (beginsWith word.toList) = some word := by
  decide +kernel

-- Where an identifier ends, no character of one follows.
theorem part_fails_ends (rest : List Char) (place : Nat)
    (fails : Matches ecmascript .token true Es.identifierPart rest place none) :
    ∀ c, rest.head? = some c → isNamePart c = false := by
  intro c head
  refine Bool.eq_false_iff.mpr fun part => ?_
  cases rest with
  | nil => cases head
  | cons d rest =>
    cases head
    obtain ⟨m, found⟩ := part_matches true c rest place part
    cases matches_once _ _ _ _ _ _ _ _ fails found

theorem find_same (p q : String → Bool) (ws : List String) (same : ∀ w ∈ ws, p w = q w) :
    ws.find? p = ws.find? q := by
  induction ws with
  | nil => rfl
  | cons w ws hyp =>
    rw [List.find?_cons, List.find?_cons, same w List.mem_cons_self,
      hyp fun v member => same v (List.mem_cons_of_mem _ member)]

theorem reserved_word_matches (word : String) (reserved : word ∈ reservedWords) (rest : List Char) (place : Nat)
    (fails : Matches ecmascript .token true Es.identifierPart rest (place + bytes word.toList) none) :
    ∃ m, Matches ecmascript .token true Es.reservedWord (word.toList ++ rest) place (some m) := by
  have ends := part_fails_ends rest _ fails
  have first : reservedWords.find? (beginsWith (word.toList ++ rest)) = some word := by
    rw [← reserved_first word reserved]
    refine find_same _ _ reservedWords fun w member => ?_
    rw [Bool.eq_iff_iff, beginsWith, beginsWith, List.isPrefixOf_iff_prefix, List.isPrefixOf_iff_prefix]
    exact prefix_before _ _ _ (reserved_letters w member) ends
  exact ⟨_, .seqMatches _ _ _ _ _ _ _ _ (words_match true reservedWords word rest place first)
    (.refuse _ _ _ _ _ _ fails)⟩

/-! Identifiers. -/

theorem letter_spells (allowed : Char → Bool) (cs : List Char)
    (spells : (Peg.choice (.char allowed) Es.unicodeEscape).Spells cs) : ∃ escaped, Letter allowed escaped cs := by
  rcases spells with ⟨c, fits, rfl⟩ | escape
  · exact ⟨false, .plain c fits⟩
  · obtain ⟨_, _, rfl, rfl, _, _, rfl, ⟨a, one, rfl⟩, _, _, rfl, ⟨b, two, rfl⟩, _, _, rfl, ⟨c, three, rfl⟩,
      d, four, rfl⟩ := escape
    refine ⟨true, .escape a b c d fun x member => ?_⟩
    simp only [List.mem_cons, List.not_mem_nil, or_false] at member
    rcases member with rfl | rfl | rfl | rfl <;> assumption

theorem name_spells (cs : List Char) (spells : (Es.body .identifierName).Spells cs) : NameText cs := by
  obtain ⟨first, _, rfl, start, others, rfl, parts⟩ := spells
  exact ⟨first, others, rfl, letter_spells isNameStart first start,
    fun piece member => letter_spells isNamePart piece (parts piece member)⟩

/-- The text of an identifier. -/
theorem identifier_text (text : List Char) (node : Node Rule) (genuine : node.Genuine ecmascript text)
    (rule : node.rule = .identifier) : NameText node.chars ∧ ∀ word ∈ reservedWords, node.chars ≠ word.toList := by
  obtain ⟨mode, before, input, m, same, whole, _, inner, _⟩ := genuine_match ecmascript text node genuine
  rw [rule] at inner
  change Matches ecmascript .token false (.seq (.refuse Es.reservedWord) (.rule .identifierName)) _ _ _ at inner
  obtain ⟨n, k, refused, named, rfl⟩ := seq_matched ecmascript _ _ _ _ _ _ m inner
  obtain ⟨unreserved, rfl⟩ := refuse_matched ecmascript _ _ _ _ _ n refused
  obtain ⟨l, name, rfl⟩ := rule_matched ecmascript _ _ _ _ _ _ named
  change Matches ecmascript .token false (Es.body .identifierName) input (bytes before) _ at name
  obtain ⟨cs, takes, spells⟩ := match_takes ecmascript _ _ _ _ _ _ name l rfl
  have chars : node.chars = cs := by
    rw [same]
    change charsBefore input (l.place - bytes before) = cs
    rw [takes.2, takes.1, Nat.add_sub_cancel_left, chars_before_taken]
  rw [chars]
  refine ⟨name_spells cs (spells rfl), ?_⟩
  rintro word reserved rfl
  obtain ⟨f, o, _, others, rfl⟩ := seq_matched ecmascript _ _ _ _ _ _ l name
  obtain ⟨o', fails, alike⟩ := matches_alike ecmascript _ _ _ _ _ _ (star_ends ecmascript _ _ _ _ _ others) true
  cases alike_none o' alike
  rw [takes.2] at fails
  obtain ⟨r, contra⟩ := reserved_word_matches word reserved o.rest (bytes before) fails
  rw [takes.1] at unreserved
  cases matches_once _ _ _ _ _ _ _ _ unreserved contra

end Ecma.Grammar

/-!
Tokens and what follows them. An expression that takes none of some characters does the same before any text
that begins with one of them as at the end of the text.
-/

namespace Ecma.Grammar

variable {ρ : Type}

/-- A token takes none of some characters, if the rules in it that are given do not. -/
def Peg.avoids (bad : List Char) (given : ρ → Bool) : Peg ρ → Bool
  | .text cs => !cs.isEmpty && cs.all (!bad.contains ·)
  | .char member => bad.all (!member ·)
  | .rule name => given name
  | .seq first second => first.avoids bad given && second.avoids bad given
  | .choice first second => first.avoids bad given && second.avoids bad given
  | .maybe item => item.avoids bad given
  | .star item => item.avoids bad given
  | .again item => item.avoids bad given
  | .look item => item.avoids bad given
  | .refuse item => item.avoids bad given
  | _ => false

/-- A text begins with one of some characters, or there is none. -/
def Barred (bad : List Char) (cs : List Char) : Prop :=
  ∀ c, cs.head? = some c → c ∈ bad

/-- Two matches take the same stretch, with none of some characters in it, and leave no nodes. -/
def Stretch (bad : List Char) (rest rest' : List Char) (m m' : Match ρ) : Prop :=
  (∃ cs, rest = cs ++ m.rest ∧ rest' = cs ++ m'.rest ∧ ∀ c ∈ cs, c ∉ bad) ∧ m.nodes = [] ∧ m'.nodes = []

/-- Two attempts fail both or take the same stretch. -/
def Together (related : Match ρ → Match ρ → Prop) : Option (Match ρ) → Option (Match ρ) → Prop
  | none, none => True
  | some m, some m' => related m m'
  | _, _ => False

theorem together_none (related : Match ρ → Match ρ → Prop) (o : Option (Match ρ))
    (together : Together related o none) : o = none := by
  cases o with
  | none => rfl
  | some m => exact together.elim

theorem together_some (related : Match ρ → Match ρ → Prop) (o : Option (Match ρ)) (m' : Match ρ)
    (together : Together related o (some m')) : ∃ m, o = some m ∧ related m m' := by
  cases o with
  | none => exact together.elim
  | some m => exact ⟨m, rfl, together⟩

section

variable (bad : List Char) (tail : List Char) (barred : Barred bad tail)

include barred in
theorem take_text_before (cs rest : List Char) (place : Nat) (solid : cs ≠ []) (other : ∀ c ∈ cs, c ∉ bad) :
    takeText cs (rest ++ tail) place =
      (takeText cs rest place).map fun taken => (taken.1 ++ tail, taken.2) := by
  induction cs generalizing rest place with
  | nil => exact absurd rfl solid
  | cons c cs hyp =>
    cases rest with
    | nil =>
      cases tail with
      | nil => rfl
      | cons d tail =>
        have different : c ≠ d := fun same => other c List.mem_cons_self (same ▸ barred d rfl)
        exact if_neg different
    | cons d rest =>
      rw [List.cons_append, takeText, takeText]
      by_cases same : c = d
      · rw [if_pos same, if_pos same]
        cases cs with
        | nil => rfl
        | cons e cs =>
          exact hyp rest _ (List.cons_ne_nil e cs) fun x member => other x (List.mem_cons_of_mem c member)
      · rw [if_neg same, if_neg same]
        rfl

theorem stretch_nothing (rest rest' : List Char) (place place' : Nat) :
    Stretch (ρ := ρ) bad rest rest' ⟨rest, place, []⟩ ⟨rest', place', []⟩ := by
  exact ⟨⟨[], rfl, rfl, fun c member => absurd member List.not_mem_nil⟩, rfl, rfl⟩

theorem stretch_append (rest rest' : List Char) (m m' n n' : Match ρ) (first : Stretch bad rest rest' m m')
    (second : Stretch bad m.rest m'.rest n n') :
    Stretch bad rest rest' ⟨n.rest, n.place, m.nodes ++ n.nodes⟩ ⟨n'.rest, n'.place, m'.nodes ++ n'.nodes⟩ := by
  obtain ⟨⟨cs, is, is', good⟩, none, none'⟩ := first
  obtain ⟨⟨ds, more, more', better⟩, rest, rest'⟩ := second
  refine ⟨⟨cs ++ ds, ?_, ?_, ?_⟩, ?_, ?_⟩
  · rw [is, more, List.append_assoc]
  · rw [is', more', List.append_assoc]
  · exact fun c member => (List.mem_append.mp member).elim (good c) (better c)
  · rw [none, rest]
    rfl
  · rw [none', rest']
    rfl

-- What is left after a stretch is followed by the same.
theorem stretch_left (rest : List Char) (m m' : Match ρ) (stretch : Stretch bad rest (rest ++ tail) m m') :
    m'.rest = m.rest ++ tail := by
  obtain ⟨⟨cs, is, is', _⟩, _⟩ := stretch
  rw [is, List.append_assoc] at is'
  exact (List.append_cancel_left is').symm

variable (g : Grammar ρ) (given : ρ → Bool)
  (tokens : ∀ name, given name = true → g.kind name = .token ∧ (g.body name).avoids bad given = true)

include tokens barred in
-- The induction is on the match that has the tail behind it.
theorem stretches (mode : Mode) (quiet : Bool) (e : Peg ρ) (rest' : List Char) (place' : Nat)
    (o' : Option (Match ρ)) (found : Matches g mode quiet e rest' place' o') :
    mode = .token → e.avoids bad given = true → ∀ rest place, rest' = rest ++ tail →
      ∃ o, Matches g mode quiet e rest place o ∧ Together (Stretch bad rest rest') o o' := by
  induction found with
  | token mode quiet e rest' place' isToken =>
    rintro rfl avoids rest place rfl
    refine ⟨_, .token _ _ _ _ _ isToken, ?_⟩
    cases e with
    | text cs =>
      obtain ⟨solid, other⟩ := Bool.and_eq_true_iff.mp avoids
      have good : ∀ c ∈ cs, c ∉ bad := fun c member contra => by
        have absent := List.all_eq_true.mp other c member
        rw [List.contains_iff_mem.mpr contra] at absent
        cases absent
      have nonempty : cs ≠ [] := by
        rintro rfl
        cases solid
      rw [Peg.token?, Peg.token?, take_text_before bad tail barred cs rest place' nonempty good]
      cases taken : takeText cs rest place' with
      | none =>
        have alone : takeText cs rest place = none := by
          cases found : takeText cs rest place with
          | none => rfl
          | some left =>
            have whole := (take_text_takes cs rest place left found).1
            rw [whole, take_text_whole] at taken
            cases taken
        rw [alone]
        trivial
      | some left =>
        have whole := (take_text_takes cs rest place' left taken).1
        rw [whole, take_text_whole]
        exact ⟨⟨cs, rfl, List.append_assoc .., good⟩, rfl, rfl⟩
    | char member =>
      have outside : ∀ c, c ∈ bad → member c = false := fun c inside => by
        have refuses := List.all_eq_true.mp avoids c inside
        rwa [Bool.not_eq_true'] at refuses
      cases rest with
      | nil =>
        cases tail with
        | nil => trivial
        | cons d tail =>
          rw [List.nil_append, Peg.token?, Peg.token?, outside d (barred d rfl)]
          trivial
      | cons c rest =>
        rw [List.cons_append, Peg.token?, Peg.token?]
        cases fits : member c with
        | false => trivial
        | true =>
          refine ⟨⟨[c], rfl, rfl, fun x inside contra => ?_⟩, rfl, rfl⟩
          rw [List.mem_singleton.mp inside] at contra
          rw [outside c contra] at fits
          cases fits
    | beginning | ending | layout => cases avoids
    | _ => cases isToken
  | ruleFails mode quiet name rest' place' inner hyp =>
    rintro rfl avoids rest place rfl
    obtain ⟨token, inside⟩ := tokens name avoids
    obtain ⟨o, inner, together⟩ := hyp (by rw [token]; rfl) inside rest place rfl
    cases together_none _ o together
    exact ⟨none, .ruleFails _ _ _ _ _ inner, trivial⟩
  | ruleMatches mode quiet name rest' place' m' inner hyp =>
    rintro rfl avoids rest place rfl
    obtain ⟨token, inside⟩ := tokens name avoids
    obtain ⟨o, inner, together⟩ := hyp (by rw [token]; rfl) inside rest place rfl
    obtain ⟨m, rfl, stretch⟩ := together_some _ o m' together
    refine ⟨_, .ruleMatches _ _ _ _ _ m inner, ⟨stretch.1, ?_, ?_⟩⟩
    · rw [token]
      rfl
    · rw [token]
      rfl
  | seqFails mode quiet first second rest' place' left hyp =>
    rintro rfl avoids rest place rfl
    obtain ⟨one, _⟩ := Bool.and_eq_true_iff.mp avoids
    obtain ⟨o, left, together⟩ := hyp rfl one rest place rfl
    cases together_none _ o together
    exact ⟨none, .seqFails _ _ _ _ _ _ left, trivial⟩
  | seqMatches mode quiet first second rest' place' m' o' left right hypLeft hypRight =>
    rintro rfl avoids rest place rfl
    obtain ⟨one, two⟩ := Bool.and_eq_true_iff.mp avoids
    obtain ⟨o, left, together⟩ := hypLeft rfl one rest place rfl
    obtain ⟨m, rfl, stretch⟩ := together_some _ o m' together
    obtain ⟨p, right, together⟩ := hypRight rfl two m.rest m.place (stretch_left bad tail rest m m' stretch)
    refine ⟨_, .seqMatches _ _ _ _ _ _ m p left right, ?_⟩
    cases o' with
    | none =>
      cases together_none _ p together
      trivial
    | some n' =>
      obtain ⟨n, rfl, more⟩ := together_some _ p n' together
      exact stretch_append bad rest _ m m' n n' stretch more
  | choiceFirst mode quiet first second rest' place' m' left hyp =>
    rintro rfl avoids rest place rfl
    obtain ⟨one, _⟩ := Bool.and_eq_true_iff.mp avoids
    obtain ⟨o, left, together⟩ := hyp rfl one rest place rfl
    obtain ⟨m, rfl, stretch⟩ := together_some _ o m' together
    exact ⟨_, .choiceFirst _ _ _ _ _ _ m left, stretch⟩
  | choiceSecond mode quiet first second rest' place' o' left right hypLeft hypRight =>
    rintro rfl avoids rest place rfl
    obtain ⟨one, two⟩ := Bool.and_eq_true_iff.mp avoids
    obtain ⟨o, left, together⟩ := hypLeft rfl one rest place rfl
    cases together_none _ o together
    obtain ⟨p, right, together⟩ := hypRight rfl two rest place rfl
    exact ⟨p, .choiceSecond _ _ _ _ _ _ p left right, together⟩
  | maybe mode quiet item rest' place' o' inner hyp =>
    rintro rfl avoids rest place rfl
    obtain ⟨o, inner, together⟩ := hyp rfl avoids rest place rfl
    refine ⟨_, .maybe _ _ _ _ _ o inner, ?_⟩
    cases o' with
    | none =>
      cases together_none _ o together
      exact stretch_nothing bad _ _ _ _
    | some m' =>
      obtain ⟨m, rfl, stretch⟩ := together_some _ o m' together
      exact stretch
  | starEnds mode quiet item rest' place' inner hyp =>
    rintro rfl avoids rest place rfl
    obtain ⟨o, inner, together⟩ := hyp rfl avoids rest place rfl
    cases together_none _ o together
    exact ⟨_, .starEnds _ _ _ _ _ inner, stretch_nothing bad _ _ _ _⟩
  | starMatches mode quiet item rest' place' m' n' inner others hypInner hypOthers =>
    rintro rfl avoids rest place rfl
    obtain ⟨o, inner, together⟩ := hypInner rfl avoids rest place rfl
    obtain ⟨m, rfl, stretch⟩ := together_some _ o m' together
    obtain ⟨p, others, together⟩ := hypOthers rfl avoids m.rest m.place (stretch_left bad tail rest m m' stretch)
    obtain ⟨n, rfl, more⟩ := together_some _ p n' together
    exact ⟨_, .starMatches _ _ _ _ _ m n inner others, stretch_append bad rest _ m m' n n' stretch more⟩
  | againEnds mode quiet item rest' place' inner hyp =>
    rintro rfl avoids rest place rfl
    obtain ⟨o, inner, together⟩ := hyp rfl avoids rest place rfl
    cases together_none _ o together
    exact ⟨_, .againEnds _ _ _ _ _ inner, stretch_nothing bad _ _ _ _⟩
  | againMatches mode quiet item rest' place' m' n' inner others hypInner hypOthers =>
    rintro rfl avoids rest place rfl
    obtain ⟨o, inner, together⟩ := hypInner rfl avoids rest place rfl
    obtain ⟨m, rfl, stretch⟩ := together_some _ o m' together
    obtain ⟨p, others, together⟩ := hypOthers rfl avoids m.rest m.place (stretch_left bad tail rest m m' stretch)
    obtain ⟨n, rfl, more⟩ := together_some _ p n' together
    exact ⟨_, .againMatches _ _ _ _ _ m n inner others, stretch_append bad rest _ m m' n n' stretch more⟩
  | look mode quiet item rest' place' o' inner hyp =>
    rintro rfl avoids rest place rfl
    obtain ⟨o, inner, together⟩ := hyp rfl avoids rest place rfl
    refine ⟨_, .look _ _ _ _ _ o inner, ?_⟩
    cases o' with
    | none =>
      cases together_none _ o together
      trivial
    | some m' =>
      obtain ⟨m, rfl, _⟩ := together_some _ o m' together
      exact stretch_nothing bad _ _ _ _
  | refuse mode quiet item rest' place' o' inner hyp =>
    rintro rfl avoids rest place rfl
    obtain ⟨o, inner, together⟩ := hyp rfl avoids rest place rfl
    refine ⟨_, .refuse _ _ _ _ _ o inner, ?_⟩
    cases o' with
    | none =>
      cases together_none _ o together
      exact stretch_nothing bad _ _ _ _
    | some m' =>
      obtain ⟨m, rfl, _⟩ := together_some _ o m' together
      trivial

end

end Ecma.Grammar
