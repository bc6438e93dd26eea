import Ecma.Proofs.Grammar.Word
import Ecma.Proofs.Syntax.Part
import Ecma.Syntax.Build

set_option autoImplicit false

/-!
Legacy octal literals. A number is one when it is spelled by octal digits from a zero on, a string when an
octal digit is escaped in it, unless that is a zero with no digit behind it.
-/

namespace Ecma.Syntax

def OctalNumber (cs : List Char) : Prop :=
  ∃ c rest, cs = '0' :: c :: rest ∧ ∀ d ∈ c :: rest, isOctal d = true

/-- Characters and escapes of a string that are complete; an escape is judged by its first two characters. -/
inductive Complete : List Char → Prop
  | nothing : Complete []
  | plain (c : Char) (rest : List Char) (other : c ≠ '\\') (complete : Complete rest) : Complete (c :: rest)
  | escape (c : Char) (rest : List Char) (complete : Complete rest) : Complete ('\\' :: c :: rest)

/-- The text between the quotes has a legacy octal escape. -/
def OctalEscape (inside : List Char) : Prop :=
  ∃ before d after, inside = before ++ '\\' :: d :: after ∧ Complete before ∧ isOctal d = true ∧
    (d = '0' → after.head?.any Char.isDigit = true)

def OctalString (literal : List Char) : Prop :=
  OctalEscape (literal.drop 1).dropLast

theorem octal_number_flagged (cs : List Char) (octal : OctalNumber cs) : (Number.ofLiteral cs).2 = true := by
  obtain ⟨c, rest, rfl, digits⟩ := octal
  have unmarked : Number.stripHexMark ('0' :: c :: rest) = none := by
    unfold Number.stripHexMark
    split
    · rename_i same
      cases same
      exact absurd (digits 'x' List.mem_cons_self) (by decide)
    · rename_i same
      cases same
      exact absurd (digits 'X' List.mem_cons_self) (by decide)
    · rfl
  have all : ((c :: rest).all fun d => decide ('0' ≤ d ∧ d ≤ '7')) = true := by
    refine List.all_eq_true.mpr fun d member => decide_eq_true ?_
    have digit := digits d member
    rw [isOctal, Bool.and_eq_true, decide_eq_true_iff, decide_eq_true_iff] at digit
    exact digit
  rw [Number.ofLiteral, unmarked]
  dsimp only
  rw [if_pos all]

/-! Escapes take no backslash but the first. -/

/-- The first so many characters are there, and none of them is a backslash. -/
def Clear (count : Nat) (cs : List Char) : Prop :=
  count ≤ cs.length ∧ '\\' ∉ cs.take count

theorem clear_zero (cs : List Char) : Clear 0 cs :=
  ⟨Nat.zero_le _, List.not_mem_nil⟩

theorem clear_succ (count : Nat) (c : Char) (cs : List Char) (other : c ≠ '\\') (clear : Clear count cs) :
    Clear (count + 1) (c :: cs) := by
  refine ⟨Nat.succ_le_succ clear.1, fun member => ?_⟩
  rcases List.mem_cons.mp member with same | later
  · exact other same.symm
  · exact clear.2 later

theorem hex_value_clear (count value : Nat) (cs : List Char) (found : Nat)
    (is : hexValue? count value cs = some found) : Clear count cs := by
  induction count generalizing value cs with
  | zero => exact clear_zero cs
  | succ count hyp =>
    cases cs with
    | nil => cases is
    | cons c cs =>
      rw [hexValue?] at is
      cases digit : hexDigit? c with
      | none =>
        rw [digit] at is
        cases is
      | some d =>
        rw [digit] at is
        refine clear_succ count c cs ?_ (hyp _ cs is)
        rintro rfl
        cases digit

theorem octal_value_clear (most value : Nat) (cs : List Char) : Clear (octalValue most value cs).2 cs := by
  induction most generalizing value cs with
  | zero => exact clear_zero cs
  | succ most hyp =>
    cases cs with
    | nil => exact clear_zero []
    | cons c cs =>
      rw [octalValue]
      split
      · rename_i digit
        refine clear_succ _ c cs ?_ (hyp _ cs)
        rintro rfl
        cases digit
      · exact clear_zero _

theorem either_case {α : Type} (p : Prop) [Decidable p] (x y a : α) (goal : Prop)
    (is : (if p then x else y) = a) (yes : p → x = a → goal) (no : ¬ p → y = a → goal) : goal := by
  by_cases holds : p
  · exact yes holds ((if_pos holds).symm.trans is)
  · exact no holds ((if_neg holds).symm.trans is)

theorem escape_clear (c : Char) (rest : List Char) (escape : Escape) (is : escapeOf c rest = .ok escape) :
    Clear escape.used rest := by
  have unit (units : List Nat) (octal : Bool) (is : Except.ok (ε := EarlyError) ⟨units, 0, octal⟩ = .ok escape) :
      Clear escape.used rest := by
    cases is
    exact clear_zero rest
  rw [escapeOf] at is
  refine either_case _ _ _ _ _ is (fun _ is => unit _ _ is) fun _ is => ?_
  refine either_case _ _ _ _ _ is (fun _ is => unit _ _ is) fun _ is => ?_
  refine either_case _ _ _ _ _ is (fun _ is => unit _ _ is) fun _ is => ?_
  refine either_case _ _ _ _ _ is (fun _ is => unit _ _ is) fun _ is => ?_
  refine either_case _ _ _ _ _ is (fun _ is => unit _ _ is) fun _ is => ?_
  refine either_case _ _ _ _ _ is (fun _ is => unit _ _ is) fun _ is => ?_
  refine either_case _ _ _ _ _ is (fun _ is => ?_) fun _ is => ?_
  · cases is
    cases rest with
    | nil => exact clear_zero []
    | cons d rest =>
      by_cases line : (d :: rest).head? = some '\n'
      · rw [if_pos line]
        cases line
        exact clear_succ 0 '\n' rest (by decide) (clear_zero rest)
      · rw [if_neg line]
        exact clear_zero _
  refine either_case _ _ _ _ _ is (fun _ is => unit _ _ is) fun _ is => ?_
  refine either_case _ _ _ _ _ is (fun _ is => ?_) fun _ is => ?_
  · cases digits : hexValue? 2 0 rest with
    | none =>
      rw [digits] at is
      cases is
    | some value =>
      rw [digits] at is
      cases is
      exact hex_value_clear 2 0 rest value digits
  refine either_case _ _ _ _ _ is (fun _ is => ?_) fun _ is => ?_
  · cases digits : hexValue? 4 0 rest with
    | none =>
      rw [digits] at is
      cases is
    | some value =>
      rw [digits] at is
      cases is
      exact hex_value_clear 4 0 rest value digits
  refine either_case _ _ _ _ _ is (fun _ is => ?_) fun _ is => unit _ _ is
  refine either_case _ _ _ _ _ is (fun _ is => unit _ _ is) fun _ is => ?_
  cases is
  exact octal_value_clear _ _ rest

/-- Characters with an escape of their own. -/
def namedEscapes : List Char :=
  ['b', 't', 'n', 'v', 'f', 'r', 'x', 'u', '\r', '\n', '\u2028', '\u2029']

theorem escape_unnamed (c : Char) (rest : List Char) (other : c ∉ namedEscapes) :
    escapeOf c rest =
      if isOctal c then
        if c = '0' ∧ !(rest.head?.any Char.isDigit) then .ok { units := [0] }
        else .ok ⟨[(octalValue (if c ≤ '3' then 2 else 1) (c.toNat - 48) rest).1],
          (octalValue (if c ≤ '3' then 2 else 1) (c.toNat - 48) rest).2, true⟩
      else .ok { units := Text.unitsOfChar c } := by
  have unlike (d : Char) (named : d ∈ namedEscapes) : c ≠ d := fun same => other (by rwa [same])
  rw [escapeOf, if_neg (unlike 'b' (by decide)), if_neg (unlike 't' (by decide)), if_neg (unlike 'n' (by decide)),
    if_neg (unlike 'v' (by decide)), if_neg (unlike 'f' (by decide)), if_neg (unlike 'r' (by decide)),
    if_neg (unlike '\r' (by decide)), if_neg, if_neg (unlike 'x' (by decide)), if_neg (unlike 'u' (by decide))]
  rintro (line | line | line)
  · exact unlike '\n' (by decide) line
  · exact unlike '\u2028' (by decide) line
  · exact unlike '\u2029' (by decide) line

theorem octal_unnamed (c : Char) (octal : isOctal c = true) : c ∉ namedEscapes := by
  intro named
  simp only [namedEscapes, List.mem_cons, List.not_mem_nil, or_false] at named
  rcases named with rfl | rfl | rfl | rfl | rfl | rfl | rfl | rfl | rfl | rfl | rfl | rfl <;> cases octal

theorem octal_flagged (d : Char) (after : List Char) (escape : Escape) (octal : isOctal d = true)
    (more : d = '0' → after.head?.any Char.isDigit = true) (is : escapeOf d after = .ok escape) :
    escape.octal = true := by
  rw [escape_unnamed d after (octal_unnamed d octal), if_pos octal, if_neg] at is
  · cases is
    rfl
  · rintro ⟨zero, last⟩
    rw [more zero] at last
    cases last

/-! Decoding. -/

theorem decode_escape (e : Char) (after : List Char) (units : List Nat) (octal : Bool)
    (is : decodeBody 0 ('\\' :: e :: after) = .ok (units, octal)) :
    ∃ escape units' more, escapeOf e after = .ok escape ∧ decodeBody escape.used after = .ok (units', more) ∧
      octal = (escape.octal || more) := by
  rw [decodeBody, if_pos rfl] at is
  cases found : escapeOf e after with
  | error cause =>
    rw [found] at is
    cases is
  | ok escape =>
    rw [found] at is
    dsimp only at is
    rw [decodeBody] at is
    cases others : decodeBody escape.used after with
    | error cause =>
      rw [others] at is
      cases is
    | ok result =>
      rw [others] at is
      cases is
      exact ⟨escape, result.1, result.2, rfl, others, rfl⟩

theorem decode_plain (c : Char) (rest : List Char) (other : c ≠ '\\') (units : List Nat) (octal : Bool)
    (is : decodeBody 0 (c :: rest) = .ok (units, octal)) : ∃ units', decodeBody 0 rest = .ok (units', octal) := by
  rw [decodeBody.eq_def] at is
  dsimp only at is
  rw [if_neg other] at is
  cases others : decodeBody 0 rest with
  | error cause =>
    rw [others] at is
    cases is
  | ok result =>
    rw [others] at is
    cases is
    exact ⟨result.1, rfl⟩

theorem clear_before (count : Nat) (cs more : List Char) (clear : Clear count (cs ++ '\\' :: more)) :
    Clear count cs := by
  obtain ⟨_, free⟩ := clear
  rw [List.take_append, List.mem_append, not_or] at free
  refine ⟨Decidable.byContradiction fun long => free.2 ?_, free.1⟩
  obtain ⟨extra, same⟩ := Nat.exists_eq_succ_of_ne_zero (n := count - cs.length) (by omega)
  rw [same]
  exact List.mem_cons_self

-- The induction is on the complete pieces before the escape; some characters at the front are skipped.
theorem decode_escape_at (before : List Char) (complete : Complete before) (c : Char) (after : List Char) (skip : Nat)
    (clear : Clear skip before) (units : List Nat) (flag : Bool)
    (is : decodeBody skip (before ++ '\\' :: c :: after) = .ok (units, flag)) :
    ∃ escape, escapeOf c after = .ok escape ∧ (escape.octal = true → flag = true) := by
  induction complete generalizing skip units flag with
  | nothing =>
    cases Nat.le_zero.mp clear.1
    obtain ⟨escape, _, others, found, _, rfl⟩ := decode_escape c after units flag is
    refine ⟨escape, found, fun octal => ?_⟩
    rw [octal]
    rfl
  | plain d rest other _ hyp =>
    cases skip with
    | zero =>
      obtain ⟨units', others⟩ := decode_plain d _ other units flag is
      exact hyp 0 (clear_zero rest) units' flag others
    | succ skip =>
      rw [List.cons_append, decodeBody] at is
      exact hyp skip ⟨Nat.le_of_succ_le_succ clear.1, fun member => clear.2 (List.mem_cons_of_mem _ member)⟩
        units flag is
  | escape d rest _ hyp =>
    cases skip with
    | zero =>
      obtain ⟨escape, units', others, found, inner, rfl⟩ := decode_escape d _ units flag is
      have clear := clear_before _ rest (c :: after) (escape_clear d _ escape found)
      obtain ⟨later, one, flagged⟩ := hyp escape.used clear units' others inner
      refine ⟨later, one, fun octal => ?_⟩
      rw [flagged octal, Bool.or_true]
    | succ skip => exact absurd List.mem_cons_self clear.2

theorem octal_escape_flagged (before : List Char) (complete : Complete before) (d : Char) (after : List Char)
    (octal : isOctal d = true) (more : d = '0' → after.head?.any Char.isDigit = true) (units : List Nat) (flag : Bool)
    (is : decodeBody 0 (before ++ '\\' :: d :: after) = .ok (units, flag)) : flag = true := by
  obtain ⟨escape, found, flagged⟩ := decode_escape_at before complete d after 0 (clear_zero before) units flag is
  exact flagged (octal_flagged d after escape octal more found)

theorem octal_string_flagged (literal : List Char) (value : String) (flag : Bool) (octal : OctalString literal)
    (is : decodeString literal = .ok (value, flag)) : flag = true := by
  obtain ⟨before, d, after, inside, complete, digit, more⟩ := octal
  rw [decodeString] at is
  split at is
  · cases is
  · rw [inside] at is
    cases decoded : decodeBody 0 (before ++ '\\' :: d :: after) with
    | error cause =>
      rw [decoded] at is
      cases is
    | ok result =>
      rw [decoded] at is
      cases is
      exact octal_escape_flagged before complete d after digit more result.1 _ decoded

end Ecma.Syntax

/-!
The early errors of strict code as laws of the parts of a text: which names may be bound, mentioned and
assigned to, which statements and operators there are, and which literals. A part is judged by the unit of
code that it stands in.
-/

namespace Ecma.Syntax

open Ecma.Grammar

/-! Names. -/

def Handler.param : Handler → Identifier
  | .mk _ param _ => param

def ForInit.bound : ForInit → List String
  | .«variables» declarators => declarators.map fun d => d.id.name
  | _ => []

def ForTarget.bound : ForTarget → List String
  | .variable declarator => [declarator.id.name]
  | .expression _ => []

/-- The names that a statement binds. -/
def Statement.bound : Statement → List String
  | .«variables» _ declarators => declarators.map fun d => d.id.name
  | .trying _ _ handler _ => handler.toList.map fun h => h.param.name
  | .forLoop _ init _ _ _ => init.bound
  | .forIn _ target _ _ => target.bound
  | _ => []

/-- The label that a statement has or goes to. -/
def Statement.label : Statement → Option String
  | .labelled _ label _ => some label
  | .breaking _ label => label
  | .continuing _ label => label
  | _ => none

namespace Part

/-- The names that a part binds: variables, parameters, and the name of a function. -/
def bound : Part → List String
  | .expression _ => []
  | .statement _ _ s => s.bound
  | .code unit => unit.header.name.toList ++ (unit.header.params ++ unit.header.«variables»)

/-- The identifiers and labels that a part mentions. -/
def mentioned : Part → List String
  | .expression (.identifier id) => [id.name]
  | .expression _ => []
  | .statement _ _ s => s.label.toList
  | .code _ => []

def names (part : Part) : List String :=
  part.bound ++ part.mentioned

end Part

/-! The laws. -/

/-- Strict code may assign to the expression. -/
def Expression.Assignable : Expression → Prop
  | .identifier id => id.name ≠ "eval" ∧ id.name ≠ "arguments"
  | _ => True

def Property.dataKey? : Property → Option String
  | .mk key .init _ => some key
  | _ => none

def ForTarget.Assignable : ForTarget → Prop
  | .variable _ => True
  | .expression e => e.Assignable

/-- Strict code may have the expression, apart from its names and parts. -/
def Expression.Lawful : Expression → Prop
  | .object _ properties => (properties.filterMap Property.dataKey?).Nodup
  | .unary _ op argument => op = .delete → ∀ id, argument ≠ .identifier id
  | .update _ _ _ target => target.Assignable
  | .assign _ _ target _ => target.Assignable
  | _ => True

/-- The place of a function declaration. -/
def Part.isDeclaration : Part → Bool
  | .statement _ _ (.function _) => true
  | _ => false

/-- Strict code may have the statement, apart from its names and parts. -/
def Statement.Lawful : Statement → Prop
  | .withObject _ _ _ _ => False
  | .forIn _ target _ _ => target.Assignable
  | _ => True

/-- A literal that strict code must not have. -/
def OctalLiteral (node : Node Rule) : Prop :=
  node.rule = .numericLiteral ∧ OctalNumber node.chars ∨ node.rule = .stringLiteral ∧ OctalString node.chars

/-- No literal of the text of a node is a legacy octal one. -/
def Decimal (node : Node Rule) : Prop :=
  ∀ literal : Node Rule, literal.Below node → ¬ OctalLiteral literal

/-- A span of the text that was parsed in which no literal is a legacy octal one. -/
def DecimalSpan (root : Node Rule) (span : Span) : Prop :=
  (∃ node : Node Rule, node.Below root ∧ span = ⟨node.start, node.stop⟩) ∧
    ∀ literal : Node Rule, literal.Below root → span.start ≤ literal.start → literal.stop ≤ span.stop →
      ¬ OctalLiteral literal

/-- What strict code may consist of; its literals are found in the text that was parsed. -/
structure Part.Lawful (root : Node Rule) (part : Part) : Prop where
  reserved : ∀ name ∈ part.names, name ∉ strictReserved
  bound : ∀ name ∈ part.bound, name ≠ "eval" ∧ name ≠ "arguments"
  expression : ∀ e, part = .expression e → e.Lawful
  statement : ∀ g own s, part = .statement g own s →
    s.Lawful ∧ ∀ inner ∈ part.parts, inner.isDeclaration = false
  parameters : ∀ unit, part = .code unit → unit.header.params.Nodup
  literals : ∀ unit, part = .code unit → ∀ s ∈ unit.body, DecimalSpan root s.span

/-! Spelling. -/

/-- The name is spelled somewhere in a text by an identifier that is no reserved word as it is written. -/
def Spelled (text : List Char) (name : String) : Prop :=
  ∃ before cs after, text = before ++ cs ++ after ∧ decodeIdentifier cs = .ok name ∧ NameText cs ∧
    ∀ word ∈ reservedWords, cs ≠ word.toList

/-! All parts. -/

namespace Part

/-- The strictness of the code that a part is or stands in. -/
def strictness (outer : Bool) : Part → Bool
  | .code unit => unit.header.strict
  | _ => outer

/-- A part that is properly spelled and, in strict code, lawful. -/
structure Proper (text : List Char) (root : Node Rule) (outer : Bool) (part : Part) : Prop where
  source : ∀ unit, part = .code unit → unit.header.source.text.toList = text
  spelled : ∀ name ∈ part.names, Spelled text name
  nested : outer = true → part.strictness outer = true
  lawful : part.strictness outer = true → part.Lawful root

/-- All parts are proper. -/
inductive Holds (text : List Char) (root : Node Rule) : Bool → Part → Prop
  | mk (outer : Bool) (part : Part) (proper : part.Proper text root outer)
      (inner : ∀ p ∈ part.parts, Holds text root (part.strictness outer) p) : Holds text root outer part

theorem within_holds (text : List Char) (root : Node Rule) (part whole : Part) (within : Within part whole)
    (outer : Bool) (holds : whole.Holds text root outer) :
    ∃ around, part.Holds text root around ∧ (whole.strictness outer = true → part.strictness around = true) := by
  induction within generalizing outer with
  | whole => exact ⟨outer, holds, fun strict => strict⟩
  | inside middle whole member _ hyp =>
    cases holds with
    | mk _ _ proper inner =>
      have known := inner middle member
      obtain ⟨around, part, strict⟩ := hyp _ known
      refine ⟨around, part, fun isStrict => strict ?_⟩
      cases known with
      | mk _ _ proper _ => exact proper.nested isStrict

end Part

end Ecma.Syntax
