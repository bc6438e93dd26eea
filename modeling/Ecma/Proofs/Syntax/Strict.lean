import Mathlib.Data.List.Forall2
import Ecma.Proofs.Syntax.ProperStatement

set_option autoImplicit false

/-!
Accepted texts, part by part: code in strict code is strict, strict code is lawful, and all names are spelled
by identifiers of the text.
-/

namespace Ecma.Syntax

open Ecma.Grammar Ecma.Scope Build

/-- The text of a unit of code is parsed as a tree, and all parts of the unit are proper. -/
structure Code.Proper (unit : Code) (root : Node Rule) : Prop where
  parses : Grammar.parseProgram unit.header.source.text = .ok root
  holds : ∃ outer, (Part.code unit).Holds unit.header.source.text.toList root outer

theorem built_holds (source : Text.Source) (kind : CodeKind) (strict wrapper : Bool) (parsed : Parsed)
    (ended : built source kind strict wrapper = .ok parsed) :
    ∃ root, Grammar.parseProgram source.text = .ok root ∧
      (Part.code parsed.code).Holds source.text.toList root false := by
  obtain ⟨root, nodes, body, inner, parses, rfl, first, rfl⟩ := built_is source kind strict wrapper parsed ended
  have genuine := program_genuine source.text root parses
  have known : ∀ node ∈ root.parts.filter (fun part => part.rule != .endOfInput),
      Known source.text.toList root node := by
    intro node member
    exact known_part _ root root ⟨.here root, genuine⟩ node (List.mem_filter.mp member).1
  have starts : (Builder.ready source kind (strict || hasUseStrict (root.parts.filter fun part =>
      part.rule != .endOfInput))).Good source.text.toList root :=
    ⟨rfl, all_none, all_none⟩
  obtain ⟨good, same, holds⟩ := (builds_below genuine _).statements true _ (Nat.lt_succ_self _) known _ body inner
    starts first
  rw [← same] at holds
  exact ⟨root, parses, unit_holds _ root genuine false _ known inner good Bool.noConfusion none [] all_absent all_none
    (fun _ => List.nodup_nil) _ body holds⟩

theorem holds_proper (source : Text.Source) (unit : Code) (root : Node Rule)
    (parses : Grammar.parseProgram source.text = .ok root) (outer : Bool)
    (holds : (Part.code unit).Holds source.text.toList root outer) : unit.Proper root := by
  have same : unit.header.source.text = source.text := by
    cases holds with
    | mk _ _ proper _ => exact String.toList_inj.mp (proper.source unit rfl)
  refine ⟨?_, outer, ?_⟩
  · rw [same]
    exact parses
  · rw [same]
    exact holds

theorem unit_proper (source : Text.Source) (kind : CodeKind) (strict wrapper collapse : Bool) (parsed : Parsed)
    (parses : parseUnit source kind strict wrapper collapse = .ok parsed) : ∃ root, parsed.code.Proper root := by
  rw [parse_unit_is] at parses
  cases found : built source kind strict wrapper with
  | error e =>
    rw [found] at parses
    cases parses
  | ok unit =>
    rw [found] at parses
    cases parses
    obtain ⟨root, parses, holds⟩ := built_holds source kind strict wrapper unit found
    exact ⟨root, holds_proper source unit.code root parses false holds⟩

theorem only_function_part (unit parsed : Parsed) (ended : unit.onlyFunction = .ok parsed) :
    Part.code parsed.code ∈ (Part.code unit.code).parts := by
  obtain ⟨⟨header, functions, statements⟩, scopes⟩ := unit
  rw [Parsed.onlyFunction] at ended
  split at ended
  · rename_i f _ only
    cases ended
    cases only
    exact .head _
  · cases ended

theorem function_proper (params body : String) (collapse : Bool) (parsed : Parsed)
    (parses : parseFunction params body collapse = .ok parsed) : ∃ root, parsed.code.Proper root := by
  rw [parse_function_is, builtFunction] at parses
  generalize draws : built ⟨"<function>", functionText params body⟩ .global false true = result at parses
  cases result with
  | error e => cases parses
  | ok unit =>
    change (unit.onlyFunction).map _ = _ at parses
    cases only : unit.onlyFunction with
    | error e =>
      rw [only] at parses
      cases parses
    | ok found =>
      rw [only] at parses
      cases parses
      obtain ⟨root, parses, holds⟩ := built_holds _ .global false true unit draws
      cases holds with
      | mk _ _ _ inner =>
        exact ⟨root, holds_proper _ found.code root parses _ (inner _ (only_function_part unit found only))⟩

theorem accepted_proper (kind : CodeKind) (parsed : Parsed) (accepted : Accepted kind parsed) :
    ∃ root, parsed.code.Proper root := by
  cases accepted with
  | program text filename collapse _ parses => exact unit_proper _ _ _ _ _ parsed parses
  | evaluated text strict collapse _ parses => exact unit_proper _ _ _ _ _ parsed parses
  | constructed params body collapse _ parses => exact function_proper params body collapse parsed parses

/-- Code in strict code is strict, and whatever is in it is lawful. -/
theorem strict_code_lawful (kind : CodeKind) (parsed : Parsed) (accepted : Accepted kind parsed) :
    ∃ root, Grammar.parseProgram parsed.code.header.source.text = .ok root ∧
      ∀ unit, Part.Within (.code unit) (.code parsed.code) → unit.header.strict = true →
        (∀ inner, Part.Within (.code inner) (.code unit) → inner.header.strict = true) ∧
          ∀ part, Part.Within part (.code unit) → part.Lawful root := by
  obtain ⟨root, parses, outer, holds⟩ := accepted_proper kind parsed accepted
  refine ⟨root, parses, fun unit within strict => ?_⟩
  obtain ⟨around, unitHolds, _⟩ := Part.within_holds _ root _ _ within outer holds
  refine ⟨fun inner inside => ?_, fun part inside => ?_⟩
  · obtain ⟨_, _, isStrict⟩ := Part.within_holds _ root _ _ inside around unitHolds
    exact isStrict strict
  · obtain ⟨_, partHolds, isStrict⟩ := Part.within_holds _ root _ _ inside around unitHolds
    cases partHolds with
    | mk _ _ proper _ => exact proper.lawful (isStrict strict)

theorem strict_code_lawful_directive : ∃ parsed unit root, Accepted .global parsed ∧
    Part.Within (.code unit) (.code parsed.code) ∧ unit.header.params = ["a", "b"] ∧
      unit.header.strict = true ∧ (Part.code unit).Lawful root := by
  let text := "'use strict'; function f(a, b) \x7b return a + b \x7d"
  have found : (parseProgram text "main.js" true).toOption.map (fun p =>
      (p.code.header.strict, p.code.functions.map fun f => f.header.params)) = some (true, [["a", "b"]]) := by
    decide +kernel
  cases parses : parseProgram text "main.js" true with
  | error e =>
    rw [parses] at found
    cases found
  | ok parsed =>
    rw [parses] at found
    obtain ⟨strict, params⟩ := Prod.mk.inj (Option.some.inj found)
    obtain ⟨⟨header, functions, body⟩, scopes⟩ := parsed
    obtain ⟨f, rest, same, param, _⟩ := List.map_eq_cons_iff.mp params
    have inside : Part.Within (.code f) (.code (.mk header functions body)) := by
      refine .inside _ (.code f) _ ?_ (.whole _)
      rw [Part.parts, show functions = f :: rest from same]
      exact .head _
    have accepted := Accepted.program text "main.js" true _ parses
    obtain ⟨root, _, laws⟩ := strict_code_lawful .global _ accepted
    obtain ⟨nested, lawful⟩ := laws _ (.whole _) strict
    exact ⟨_, f, root, accepted, inside, param, nested f inside, lawful _ inside⟩

end Ecma.Syntax

/-!
How the names of an accepted text are spelled. The words and characters that a name cannot have are looked
for in the text as it is written, and only then are its escapes resolved: a name is an identifier unless an
escape stands for what it could not have been written with.
-/

namespace Ecma.Syntax

open Ecma.Grammar Ecma.Scope Ecma.Text

/-- A character of a name and its text: the character itself, where it is allowed, or an escape of any. -/
inductive Written (allowed : Char → Bool) : List Char → Char → Prop
  | plain (c : Char) (fits : allowed c = true) : Written allowed [c] c
  | escape (a b c d : Char) (value : Nat) (digits : hexValue? 4 0 [a, b, c, d] = some value)
      (scalar : (isHighSurrogate value || isLowSurrogate value) = false) :
      Written allowed ['\\', 'u', a, b, c, d] (Char.ofNat value)

/-- A name and the text that spells it, character by character. -/
def Spells (cs : List Char) (name : String) : Prop :=
  ∃ first others c rest, cs = first ++ others.flatten ∧ name.toList = c :: rest ∧ Written isNameStart first c ∧
    List.Forall₂ (Written isNamePart) others rest

/-- The name of an identifier: a character that may begin one, and characters that may stand in one. -/
def IdentifierName (name : String) : Prop :=
  ∃ c rest, name.toList = c :: rest ∧ isNameStart c = true ∧ ∀ other ∈ rest, isNamePart other = true

section

variable (allowed : Char → Bool) (no : allowed '\\' = false)
include no

theorem letter_decodes (escaped : Bool) (piece rest name : List Char) (letter : Letter allowed escaped piece)
    (decodes : decodeName (piece ++ rest) = .ok name) :
    ∃ c others, name = c :: others ∧ Written allowed piece c ∧ decodeName rest = .ok others := by
  cases letter with
  | plain c fits =>
    have other : c ≠ '\\' := by
      rintro rfl
      rw [fits] at no
      cases no
    rw [List.cons_append, List.nil_append, decodeName] at decodes
    · cases found : decodeName rest with
      | error cause =>
        rw [found] at decodes
        cases decodes
      | ok others =>
        rw [found] at decodes
        cases decodes
        exact ⟨c, others, rfl, .plain c fits, rfl⟩
    · exact other
  | escape a b c d digits =>
    simp only [List.cons_append, List.nil_append, decodeName] at decodes
    cases digits : hexValue? 4 0 [a, b, c, d] with
    | none =>
      rw [digits] at decodes
      cases decodes
    | some value =>
    rw [digits] at decodes
    dsimp only at decodes
    split at decodes
    · cases decodes
    rename_i scalar
    cases found : decodeName rest with
    | error cause =>
      rw [found] at decodes
      cases decodes
    | ok others =>
      rw [found] at decodes
      cases decodes
      exact ⟨_, others, rfl, .escape a b c d value digits (Bool.eq_false_iff.mpr scalar), rfl⟩

end

theorem no_backslash_starts : isNameStart '\\' = false := by
  decide +kernel

theorem no_backslash : isNamePart '\\' = false := by
  decide +kernel

theorem letters_decode (pieces : List (List Char)) (letters : ∀ piece ∈ pieces, ∃ escaped, Letter isNamePart escaped piece)
    (name : List Char) (decodes : decodeName pieces.flatten = .ok name) :
    List.Forall₂ (Written isNamePart) pieces name := by
  induction pieces generalizing name with
  | nil =>
    cases decodes
    exact .nil
  | cons piece pieces hyp =>
    obtain ⟨escaped, letter⟩ := letters piece (.head _)
    obtain ⟨c, others, rfl, written, decodes⟩ :=
      letter_decodes isNamePart no_backslash escaped piece pieces.flatten name letter decodes
    exact .cons written (hyp (fun piece member => letters piece (.tail _ member)) others decodes)

theorem name_spelled (cs : List Char) (name : String) (decodes : decodeIdentifier cs = .ok name)
    (written : NameText cs) : Spells cs name := by
  obtain ⟨first, pieces, rfl, ⟨escaped, start⟩, letters⟩ := written
  rw [decodeIdentifier] at decodes
  cases found : decodeName (first ++ pieces.flatten) with
  | error cause =>
    rw [found] at decodes
    cases decodes
  | ok chars =>
    rw [found] at decodes
    cases decodes
    obtain ⟨c, rest, rfl, begins, decodes⟩ :=
      letter_decodes isNameStart no_backslash_starts escaped first _ chars start found
    exact ⟨first, pieces, c, rest, rfl, String.toList_ofList, begins, letters_decode pieces letters rest decodes⟩

/-! Names without escapes. -/

theorem written_plain (allowed : Char → Bool) (piece : List Char) (c : Char) (written : Written allowed piece c)
    (plain : '\\' ∉ piece) : piece = [c] ∧ allowed c = true := by
  cases written with
  | plain c fits => exact ⟨rfl, fits⟩
  | escape a b c d value digits scalar => exact absurd (.head _) plain

theorem all_plain (pieces : List (List Char)) (name : List Char) (written : List.Forall₂ (Written isNamePart) pieces name)
    (plain : '\\' ∉ pieces.flatten) : pieces.flatten = name ∧ ∀ c ∈ name, isNamePart c = true := by
  induction written with
  | nil => exact ⟨rfl, all_none⟩
  | cons one _ hyp =>
    rw [List.flatten_cons, List.mem_append, not_or] at plain
    obtain ⟨rfl, fits⟩ := written_plain isNamePart _ _ one plain.1
    obtain ⟨same, others⟩ := hyp plain.2
    exact ⟨congrArg _ same, all_cons fits others⟩

theorem plain_identifier (cs : List Char) (name : String) (spells : Spells cs name) (plain : '\\' ∉ cs) :
    name.toList = cs ∧ IdentifierName name := by
  obtain ⟨first, others, c, rest, rfl, same, start, written⟩ := spells
  rw [List.mem_append, not_or] at plain
  obtain ⟨rfl, fits⟩ := written_plain isNameStart first c start plain.1
  obtain ⟨flat, parts⟩ := all_plain others rest written plain.2
  exact ⟨same.trans (congrArg _ flat.symm), c, rest, same, fits, parts⟩

/-- Every name in an accepted text is spelled by a piece of the text, which is no reserved word as it is
written. Without an escape in it the name is an identifier and no reserved word. -/
theorem names_spelled (kind : CodeKind) (parsed : Parsed) (accepted : Accepted kind parsed) (part : Part)
    (within : Part.Within part (.code parsed.code)) (name : String) (member : name ∈ part.names) :
    ∃ before cs after, parsed.code.header.source.text.toList = before ++ cs ++ after ∧ Spells cs name ∧
      (∀ word ∈ reservedWords, cs ≠ word.toList) ∧
      ('\\' ∉ cs → IdentifierName name ∧ name ∉ reservedWords) := by
  obtain ⟨root, _, outer, holds⟩ := accepted_proper kind parsed accepted
  obtain ⟨around, partHolds, _⟩ := Part.within_holds _ root part _ within outer holds
  cases partHolds with
  | mk _ _ proper _ =>
    obtain ⟨before, cs, after, whole, decodes, written, unreserved⟩ := proper.spelled name member
    have spells := name_spelled cs name decodes written
    refine ⟨before, cs, after, whole, spells, unreserved, fun plain => ?_⟩
    obtain ⟨same, identifier⟩ := plain_identifier cs name spells plain
    exact ⟨identifier, fun reserved => unreserved name reserved same.symm⟩

-- An escape hides a reserved word.
theorem names_spelled_escaped : ∃ parsed, Accepted .global parsed ∧ "var" ∈ (Part.code parsed.code).names ∧
    ∃ cs, Spells cs "var" ∧ '\\' ∈ cs := by
  let text := "var v\\u0061r;"
  have found : (parseProgram text "main.js" true).toOption.map (fun p => p.code.header.variables) = some ["var"] := by
    decide +kernel
  cases parses : parseProgram text "main.js" true with
  | error e =>
    rw [parses] at found
    cases found
  | ok parsed =>
    rw [parses] at found
    have names : parsed.code.header.variables = ["var"] := Option.some.inj found
    have accepted := Accepted.program text "main.js" true parsed parses
    have member : "var" ∈ (Part.code parsed.code).names := by
      refine List.mem_append_left _ (List.mem_append_right _ (List.mem_append_right _ ?_))
      rw [names]
      exact .head _
    obtain ⟨_, cs, _, _, spells, _, plain⟩ := names_spelled .global parsed accepted _ (.whole _) "var" member
    exact ⟨parsed, accepted, member, cs, spells,
      Decidable.byContradiction fun absent => (plain absent).2 (by decide +kernel)⟩

end Ecma.Syntax
