import Ecma.Proofs.Syntax.Trees
import Ecma.Syntax.Parse

set_option autoImplicit false

/-!
Parsed texts fit their scopes. Whether bindings get slots has no say in what is parsed.
-/

namespace Ecma.Syntax

open Ecma.Grammar Ecma.Scope Build

/-- A text with its scopes before they are analysed. -/
def built (source : Text.Source) (kind : CodeKind) (strict wrapper : Bool) : Except SyntaxError Parsed :=
  match Grammar.parseProgram source.text with
  | .error offset => .error (.unexpectedToken offset)
  | .ok node =>
    let nodes := node.parts.filter fun part => part.rule != .endOfInput
    let span : Span := ⟨0, source.text.utf8ByteSize⟩
    match (buildUnit nodes span wrapper).run (Builder.start source kind strict) with
    | .error e _ => .error e
    | .ok code builder => .ok ⟨code, builder.scopes⟩

def Parsed.analyzed (collapse : Bool) (parsed : Parsed) : Parsed :=
  ⟨parsed.code, parsed.scopes.analyze collapse⟩

theorem parse_unit_is (source : Text.Source) (kind : CodeKind) (strict wrapper collapse : Bool) :
    parseUnit source kind strict wrapper collapse =
      (built source kind strict wrapper).map (Parsed.analyzed collapse) := by
  rw [parseUnit, built]
  cases Grammar.parseProgram source.text with
  | error offset => rfl
  | ok node =>
    dsimp only
    cases (buildUnit (node.parts.filter fun part => part.rule != .endOfInput)
      ⟨0, source.text.utf8ByteSize⟩ wrapper).run (Builder.start source kind strict) <;> rfl

-- The end of the first branch takes the line end, so that the semicolon is left over where `else` is looked for.
theorem branch_semicolon_left_over :
    (parseUnit ⟨"", "if (a) b; else c"⟩ .global false false false).isOk = true ∧
      (parseUnit ⟨"", "if (a) b\n; else c"⟩ .global false false false).isOk = false := by
  decide +kernel

/-- The state in which the statements of a unit are built. -/
def Builder.ready (source : Text.Source) (kind : CodeKind) (strict : Bool) : Builder :=
  { Builder.start source kind strict with
    code := { id := 0, kind := kind, strict := strict, scope := 0 } }

theorem start_scope (source : Text.Source) (kind : CodeKind) (strict : Bool) (s : ScopeId) :
    (Builder.ready source kind strict).scopes.scope s =
      if s = 0 then { kind := if kind = .eval then .eval else .global, outer := none, code := 0 }
      else default := by
  cases s with
  | zero => rfl
  | succ s => rfl

theorem start_sound (source : Text.Source) (kind : CodeKind) (strict : Bool) (root : kind ≠ .function) :
    (Builder.ready source kind strict).Sound := by
  have outer : ∀ s, ((Builder.ready source kind strict).scopes.scope s).outer = none := by
    intro s
    rw [start_scope]
    split <;> rfl
  have kinds : ∀ s, ((Builder.ready source kind strict).scopes.scope s).kind.isRoot = true := by
    intro s
    rw [start_scope]
    split
    · dsimp only
      split <;> rfl
    · rfl
  have codes : ∀ s, ((Builder.ready source kind strict).scopes.scope s).code = 0 := by
    intro s
    rw [start_scope]
    split <;> rfl
  refine ⟨⟨⟨?_, ?_, ?_, ?_, ?_, ?_, ?_, ?_⟩, ?_, ?_, ?_, ?_⟩, Nat.zero_lt_one, Nat.zero_lt_one, codes 0, codes 0, ?_, ?_⟩
  · intro s o found
    rw [outer] at found
    cases found
  · intro s _
    rw [codes]
    exact Nat.zero_lt_one
  · intro s o found
    rw [outer] at found
    cases found
  · intro s o found
    rw [outer] at found
    cases found
  · exact fun s => iff_of_true (kinds s) (outer s)
  · intro s _ _
    rw [codes]
    exact root
  · intro s
    rw [start_scope]
    split <;> exact ⟨rfl, rfl⟩
  · intro s object
    have contra := kinds s
    rw [object] at contra
    cases contra
  · intro o
    rw [start_scope, Tree.insideOf, List.filter_eq_nil_iff.mpr]
    · split <;> rfl
    · intro s _
      rw [outer]
      exact Bool.false_ne_true
  · intro s
    rw [start_scope]
    split <;> exact List.nodup_nil
  · intro s
    rw [start_scope]
    split <;> rfl
  · intro c
    cases c <;> rfl
  · exact fun _ member => absurd member List.not_mem_nil
  · exact fun _ _ member => absurd member List.not_mem_nil

-- What a text is built from: only the strictness of the unit is settled before its statements are built.
theorem built_is (source : Text.Source) (kind : CodeKind) (strict wrapper : Bool) (parsed : Parsed)
    (ended : built source kind strict wrapper = .ok parsed) :
    ∃ node nodes body inner, Grammar.parseProgram source.text = .ok node ∧
      nodes = node.parts.filter (fun part => part.rule != .endOfInput) ∧
      statements true nodes (Builder.ready source kind (strict || hasUseStrict nodes)) = .ok body inner ∧
      parsed = ⟨.mk (inner.code.header none [] inner.source ⟨0, source.text.utf8ByteSize⟩) inner.code.functions body,
        inner.code.bound (!wrapper) inner.scopes⟩ := by
  rw [built] at ended
  cases text : Grammar.parseProgram source.text with
  | error offset =>
    rw [text] at ended
    cases ended
  | ok node =>
  rw [text] at ended
  dsimp only at ended
  refine ⟨node, ?_⟩
  generalize node.parts.filter (fun part => part.rule != .endOfInput) = nodes at ended
  cases run : (buildUnit nodes ⟨0, source.text.utf8ByteSize⟩ wrapper).run (Builder.start source kind strict) with
  | error e b =>
    rw [run] at ended
    cases ended
  | ok code after =>
  rw [run] at ended
  cases ended
  have whole : ∃ body inner,
      statements true nodes (Builder.ready source kind (strict || hasUseStrict nodes)) = .ok body inner ∧
        finish inner.code none [] body ⟨0, source.text.utf8ByteSize⟩ (!wrapper) inner = .ok code after := by
    rw [EStateM.run, buildUnit] at run
    cases uses : hasUseStrict nodes with
    | true =>
      rw [uses] at run
      obtain ⟨body, inner, first, second⟩ := build_bind (statements true nodes) _
        (Builder.ready source kind true) after code run
      rw [Bool.or_true]
      exact ⟨body, inner, first, second⟩
    | false =>
      rw [uses] at run
      obtain ⟨body, inner, first, second⟩ := build_bind (statements true nodes) _
        (Builder.ready source kind strict) after code run
      rw [Bool.or_false]
      exact ⟨body, inner, first, second⟩
  obtain ⟨body, inner, first, second⟩ := whole
  rw [finish_is] at second
  cases second
  exact ⟨nodes, body, inner, rfl, rfl, first, rfl⟩

theorem built_rooted (source : Text.Source) (kind : CodeKind) (strict wrapper : Bool) (parsed : Parsed)
    (root : kind ≠ .function) (ended : built source kind strict wrapper = .ok parsed) :
    parsed.scopes.WellFormed ∧ parsed.code.Rooted parsed.scopes ∧ parsed.code.header.kind = kind ∧
      (strict = true → parsed.code.header.strict = true) := by
  obtain ⟨node, nodes, body, inner, _, _, first, rfl⟩ := built_is source kind strict wrapper parsed ended
  have sound := start_sound source kind (strict || hasUseStrict nodes) root
  obtain ⟨becomes, holds⟩ := (yields_below (sizeOf nodes + 1)).statements true nodes (Nat.lt_succ_self _)
    [0] _ body inner sound (fun s member => by
      rw [List.mem_singleton.mp member]
      exact Nat.zero_lt_one) first
  have sameKind : inner.code.kind = kind := congrArg Goals.kind becomes.grows.goals
  have unit : inner.code.scope = 0 := becomes.grows.unit
  have id : inner.code.id = 0 := becomes.grows.id
  have binds := bound_kept inner.code (!wrapper) inner.scopes
  have rootScope : (inner.scopes.scope inner.code.scope).kind = if kind = .eval then .eval else .global := by
    rw [unit, becomes.grows.tree.kind 0 Nat.zero_lt_one, start_scope, if_pos rfl]
  have rootKind : (inner.scopes.scope inner.code.scope).kind ≠ .withObject := by
    rw [rootScope]
    split <;> exact fun contra => nomatch contra
  have shaped := bound_shaped inner.code (!wrapper) inner.scopes becomes.sound.unit rootKind becomes.sound.shaped
  have known : inner.code.scope < (inner.code.bound (!wrapper) inner.scopes).scopes.size :=
    Nat.lt_of_lt_of_le becomes.sound.unit binds.scopes
  have future : inner.Future [0] (inner.code.bound (!wrapper) inner.scopes) true := by
    refine ⟨.fewer _ _ _ _ binds fun s _ absent same => absent ?_, fun _ => rfl, fun _ => rfl⟩
    rw [same, unit]
    exact List.mem_singleton_self 0
  have strictness : strict = true → inner.code.strict = true := by
    intro outside
    rw [becomes.grows.strict, outside]
    rfl
  refine ⟨⟨shaped, fun s object => ?_⟩, ⟨known, ?_, ?_, ?_, ?_, ?_⟩, sameKind, strictness⟩
  · by_cases opened : s < inner.scopes.scopes.size
    · rw [binds.kind s opened] at object
      rw [binds.code s opened]
      have later : 1 ≤ s := by
        refine Nat.one_le_iff_ne_zero.mpr fun same => rootKind ?_
        rw [unit, ← same]
        exact object
      rcases becomes.grows.withs s later object with uses | ⟨same, uses⟩
      · exact binds.usesWith _ uses
      · rw [same]
        refine bound_marked inner.code (!wrapper) inner.scopes ?_ uses
        rw [← becomes.sound.unitCode]
        exact becomes.sound.shaped.code_known _ becomes.sound.unit
    · dsimp only at object
      rw [Tree.scope_unknown _ s (by rw [bound_size]; exact opened)] at object
      cases object
  · change ((inner.code.bound (!wrapper) inner.scopes).scope inner.code.scope).kind =
      if inner.code.kind = .eval then .eval else .global
    rw [binds.kind _ becomes.sound.unit, rootScope, sameKind]
  · change ((inner.code.bound (!wrapper) inner.scopes).scope inner.code.scope).outer = none
    rw [binds.outer _ becomes.sound.unit, unit, becomes.grows.tree.outer 0 Nat.zero_lt_one]
    rfl
  · change ((inner.code.bound (!wrapper) inner.scopes).scope inner.code.scope).code = inner.code.id
    rw [binds.code _ becomes.sound.unit, becomes.sound.unitCode]
  · refine codes_scoped _ _ _ fun f member => ?_
    rcases becomes.functions _ true future f member with contra | placed
    · cases contra
    · change Code.Scoped _ inner.code.scope f
      rw [unit]
      exact placed
  · have fits := holds _ true future
    change statementsScoped ⟨_, inner.code.scope, inner.code.strict, true, ⟨inner.code.kind, [], 0, 0⟩⟩ body
    rw [sameKind, unit, becomes.grows.strict]
    exact fits

/-! Constructed functions. -/

/-- The only function of a unit that consists of it. -/
def Parsed.onlyFunction (parsed : Parsed) : Except SyntaxError Parsed :=
  match parsed.code.body, parsed.code.functions with
  | [_], [f] => .ok ⟨f, parsed.scopes⟩
  | _, _ => .error (.early .functionText 0)

/-- A constructed function with its scopes before they are analysed. -/
def builtFunction (params body : String) : Except SyntaxError Parsed :=
  (built ⟨"<function>", functionText params body⟩ .global false true).bind Parsed.onlyFunction

theorem only_function_analyzed (parsed : Parsed) (collapse : Bool) :
    (parsed.analyzed collapse).onlyFunction = parsed.onlyFunction.map (Parsed.analyzed collapse) := by
  obtain ⟨⟨header, functions, statements⟩, scopes⟩ := parsed
  rw [Parsed.onlyFunction, Parsed.onlyFunction, Parsed.analyzed]
  dsimp only
  split <;> rfl

theorem parse_function_is (params body : String) (collapse : Bool) :
    parseFunction params body collapse = (builtFunction params body).map (Parsed.analyzed collapse) := by
  have whole : parseFunction params body collapse =
      (parseUnit ⟨"<function>", functionText params body⟩ .global false true collapse).bind
        Parsed.onlyFunction := by
    -- unfolding by `rw` would try to evaluate the parser
    delta parseFunction
    generalize parseUnit ⟨"<function>", functionText params body⟩ .global false true collapse = unit
    cases unit with
    | error e => rfl
    | ok parsed =>
      change _ = parsed.onlyFunction
      delta Parsed.onlyFunction
      rfl
  rw [whole, builtFunction, parse_unit_is]
  generalize built ⟨"<function>", functionText params body⟩ .global false true = unit
  cases unit with
  | error e => rfl
  | ok parsed => exact only_function_analyzed parsed collapse

theorem only_function_scoped (unit parsed : Parsed) (rooted : unit.code.Rooted unit.scopes)
    (ended : unit.onlyFunction = .ok parsed) :
    parsed.scopes = unit.scopes ∧ parsed.code.Scoped unit.scopes unit.code.header.scope := by
  obtain ⟨⟨header, functions, statements⟩, scopes⟩ := unit
  rw [Parsed.onlyFunction] at ended
  split at ended
  · rename_i f _ only
    cases ended
    cases only
    exact ⟨rfl, rooted.functions.1⟩
  · cases ended

theorem built_function_scoped (params body : String) (parsed : Parsed)
    (ended : builtFunction params body = .ok parsed) :
    parsed.scopes.WellFormed ∧ ∃ root, (parsed.scopes.scope root).kind = .global ∧
      (parsed.scopes.scope root).outer = none ∧ parsed.code.Scoped parsed.scopes root := by
  rw [builtFunction] at ended
  have rooted := built_rooted ⟨"<function>", functionText params body⟩ .global false true
  generalize built ⟨"<function>", functionText params body⟩ .global false true = result at ended rooted
  cases result with
  | error e => cases ended
  | ok unit =>
    obtain ⟨formed, rooted, kind, _⟩ := rooted unit (fun contra => nomatch contra) rfl
    obtain ⟨same, placed⟩ := only_function_scoped unit parsed rooted ended
    rw [same]
    refine ⟨formed, unit.code.header.scope, ?_, rooted.outer, placed⟩
    rw [rooted.kind, kind]
    rfl

end Ecma.Syntax
