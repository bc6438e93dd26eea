import Ecma.Proofs.Eval.Declaration
import Ecma.Proofs.Storage.Transparency

set_option autoImplicit false

/-!
Where a host enters a realm, and where code is entered then. Global and eval code always begins with a variable
environment in which it can declare its names, so what declaring does there is what it does wherever code comes.
-/

namespace Ecma

open Ecma.Program Ecma.Scope Ecma.Syntax Run

/-! What a host runs. -/

/-- What a host has a realm do in one of its uses. -/
inductive Errand where
  | program (text filename : String)
  | call (f this : Value) (args : List Value)
  | global (name : String)
  | display (v : Value)

/-- The run that is made, unless a text is no program. -/
def Errand.run? (collapse : Bool) : Errand → Option (Run Value)
  | .program text filename =>
    (parseProgram text filename collapse).toOption.map fun parsed => Realm.runProgram (compile parsed)
  | .call f this args => some (Ecma.call f this args)
  | .global name => some (Realm.readGlobal name)
  | .display v => some (Realm.displayRun v >>= fun text => pure (.string text))

/-- The states in which runs of a host begin: those between its uses of a realm, with its steps forgotten or not, and
those in which what a run has thrown is displayed. -/
inductive Realm.Opens (host : HostFunction) (config : Config) : Realm → Prop
  | between (uses : List Use) : Opens host config (uses.foldl (fun r use => use.after host r) (Realm.create config))
  | reset (r : Realm) (opens : Opens host config r) : Opens host config r.resetSteps
  | failed (r k : Realm) (errand : Errand) (x : Run Value) (e : Interrupt) (opens : Opens host config r)
      (runs : errand.run? r.config.collapse = some x) (ends : x.on host r = .error e k) :
      Opens host config (unwindTo r.depth k)

/-! Machines that do not enter some code. -/

/-- The machine of a depth, but for what it refuses to enter. -/
def refusing (host : HostFunction) (refuse : Invocation → Realm → Option Interrupt) (rounds : Nat) : Nat → Machine
  | 0 => machine host .resolved rounds 0
  | depth + 1 =>
    { rounds := rounds, lookup := .resolved
      enter := fun i r => match refuse i r with
        | some e => .error e r
        | none => dispatch host i (refusing host refuse rounds depth) r }

open Classical in
/-- Refuses one entry in one state. -/
noncomputable def refuseOnce (i : Invocation) (r : Realm) (e : Interrupt) : Invocation → Realm → Option Interrupt :=
  fun i' r' => if i' = i ∧ r' = r then some e else none

/-- In some state code is entered: it makes a difference to a run of the host if it is refused. -/
def Realm.Enters (host : HostFunction) (config : Config) (i : Invocation) (s : Realm) : Prop :=
  ∃ r errand x e, r.Opens host config ∧ Errand.run? r.config.collapse errand = some x ∧
    x (refusing host (refuseOnce i s e) boundless boundless) r ≠ x.on host r

-- A run that does nothing but enter code does so where it begins.
theorem enters_first (host : HostFunction) (config : Config) (i : Invocation) (r : Realm) (errand : Errand)
    (opens : r.Opens host config) (runs : errand.run? r.config.collapse = some (Run.enter i)) :
    r.Enters host config i := by
  have refused (e : Interrupt) : Run.enter i (refusing host (refuseOnce i r e) boundless boundless) r = .error e r := by
    change (match refuseOnce i r e i r with
      | some e => EStateM.Result.error e r
      | none => _) = _
    rw [refuseOnce, if_pos ⟨rfl, rfl⟩]
  by_cases same : (Run.enter i).on host r = .error .exhausted r
  · refine ⟨r, errand, _, .stepsExceeded, opens, runs, ?_⟩
    rw [refused, same]
    exact fun contra => by cases contra
  · refine ⟨r, errand, _, .exhausted, opens, runs, ?_⟩
    rw [refused]
    exact fun contra => same contra.symm

namespace Storage

theorem refusing_follows (host : HostFunction) (refuse : Invocation → Realm → Option Interrupt) (rounds : Nat)
    (fair : ∀ i r, Asked i r → refuse i r = none) : Follows host rounds (refusing host refuse rounds) := by
  refine ⟨fun d => ?_, fun d => ?_, fun d => ?_, fun _ _ => rfl, fun d i r asked => ?_⟩
  · have resolved : (refusing host refuse rounds d).lookup = .resolved := by cases d <;> rfl
    rw [resolved]
    exact trusting_wary _ resolved_trusting
  · cases d <;> rfl
  · cases d with
    | zero => exact machine_constructs host .resolved rounds 0
    | succ d =>
      intro f args r v r' ended
      change (match refuse (.construct f args) r with
        | some e => EStateM.Result.error e r
        | none => dispatch host (.construct f args) (refusing host refuse rounds d) r) = .ok v r' at ended
      split at ended
      · cases ended
      · have typed : Gives (refusing host refuse rounds d) (dispatch host (.construct f args)) .ofObject :=
          gives_bind _ _ _ _ fun h => construct_unbound_typed _ _ _
        exact typed r v r' ended
  · change (match refuse i r with
      | some e => EStateM.Result.error e r
      | none => _) = _
    rw [fair i r asked]

/-! Runs of a host in two realms. -/

theorem errand_sim (errand : Errand) : (errand.run? true = none ∧ errand.run? false = none) ∨
    ∃ x₁ x₂, errand.run? true = some x₁ ∧ errand.run? false = some x₂ ∧
      ∀ (M : Machines), M.Fit → ∀ W s r₁ r₂, Related W [] [] r₁ r₂ → Sim M W [] s x₁ x₂ Same := by
  cases errand with
  | program text filename =>
    have parses (collapse : Bool) : parseProgram text filename collapse =
        (built ⟨filename, text⟩ .global false false).map (Parsed.analyzed collapse) := parse_unit_is _ _ _ _ _
    rw [Errand.run?, Errand.run?, parses, parses]
    cases result : built ⟨filename, text⟩ .global false false with
    | error e => exact .inl ⟨rfl, rfl⟩
    | ok parsed =>
      obtain ⟨formed, rooted, _⟩ := built_rooted _ _ _ _ parsed (fun contra => by cases contra) result
      refine .inr ⟨_, _, rfl, rfl, fun M fit W s r₁ r₂ related => fit.enter W [] s _ _ ?_⟩
      have globals := related.heap.globals
      exact .code _ _ _ _ _ _ _ _ _ formed rooted (fun _ => ⟨⟨rfl, rfl⟩, rfl, rfl⟩) globals globals (.inl rfl)
  | call f this args =>
    exact .inr ⟨_, _, rfl, rfl, fun M fit W s _ _ _ => uniform_sim M W [] s fit _ (call_native f this args).uniform⟩
  | global name => exact .inr ⟨_, _, rfl, rfl, fun M fit W s _ _ _ => uniform_sim M W [] s fit _ (get_native _ _).uniform⟩
  | display v =>
    refine .inr ⟨_, _, rfl, rfl, fun M fit W s _ _ _ => ?_⟩
    exact sim_bind_same M W [] s _ _ _ _ Same (sighted_sim M W [] s fit _ (display_sighted v)) fun V text _ =>
      sim_pure M V [] s Same _ _ rfl

section

variable (host : HostFunction) (hosted : host.Sighted)
include hosted

-- Refusing what is never entered makes no difference.
theorem errand_matched (refuse : Invocation → Realm → Option Interrupt) (fair : ∀ i r, Asked i r → refuse i r = none)
    (errand : Errand) (r₁ r₂ : Realm) (matched : Matched r₁ r₂) :
    (errand.run? true = none ∧ errand.run? false = none) ∨
      ∃ x₁ x₂, errand.run? true = some x₁ ∧ errand.run? false = some x₂ ∧
        x₁ (refusing host refuse boundless boundless) r₁ = x₁.on host r₁ ∧
        x₂ (refusing host refuse boundless boundless) r₂ = x₂.on host r₂ ∧ EndMatched host x₁ x₂ r₁ r₂ := by
  have follows := refusing_follows host refuse boundless fair
  have fit := beside_fit host hosted boundless _ _ follows follows boundless
  rcases errand_sim errand with none' | ⟨x₁, x₂, runs₁, runs₂, sim⟩
  · exact .inl none'
  · refine .inr ⟨x₁, x₂, runs₁, runs₂, ?_⟩
    exact on_matched host _ _ x₁ x₂ r₁ r₂ matched fun W related => sim _ fit W _ r₁ r₂ related

/-- A realm in which a run begins is one of two that look the same. -/
theorem opens_matched (config : Config) (r : Realm) (opens : r.Opens host config) :
    ∃ r₁ r₂, Matched r₁ r₂ ∧ r = if config.collapse then r₁ else r₂ := by
  have wary := trusting_wary _ resolved_trusting
  induction opens with
  | between uses =>
    have all (uses : List Use) (r₁ r₂ : Realm) (matched : Matched r₁ r₂) : Matched
        (uses.foldl (fun r use => use.after host r) r₁) (uses.foldl (fun r use => use.after host r) r₂) := by
      induction uses generalizing r₁ r₂ with
      | nil => exact matched
      | cons use rest hyp =>
        have after := (perform_matched host hosted .resolved .resolved wary wary use r₁ r₂ matched).matched
        rw [perform_after, perform_after] at after
        exact hyp _ _ after
    refine ⟨_, _, all uses _ _ (fresh_matched config), ?_⟩
    obtain ⟨depthLimit, stepsLimit, traceLimit, collapse⟩ := config
    cases collapse <;> rfl
  | reset r opens hyp =>
    obtain ⟨r₁, r₂, matched, rfl⟩ := hyp
    refine ⟨_, _, reset_matched r₁ r₂ matched, ?_⟩
    split <;> rfl
  | failed r k errand x e opens runs ends hyp =>
    obtain ⟨r₁, r₂, matched, is⟩ := hyp
    obtain ⟨W, related⟩ := matched.related
    rcases errand_matched host hosted (fun _ _ => none) (fun _ _ _ => rfl) errand r₁ r₂ matched with
      ⟨none₁, none₂⟩ | ⟨x₁, x₂, runs₁, runs₂, _, _, both⟩
    · cases collapse : config.collapse with
      | true =>
        rw [is, collapse, if_pos rfl, related.collapse₁, none₁] at runs
        cases runs
      | false =>
        rw [is, collapse, if_neg Bool.false_ne_true, related.collapse₂, none₂] at runs
        cases runs
    · cases collapse : config.collapse with
      | true =>
        rw [collapse, if_pos rfl] at is
        subst is
        rw [related.collapse₁, runs₁] at runs
        cases runs
        rcases both with ⟨_, _, _, first, _⟩ | ⟨e', k₁, k₂, first, _, matched', depth, _⟩
        · cases first.symm.trans ends
        · cases first.symm.trans ends
          exact ⟨k, k₂, matched', by rw [unwind_same _ k depth]; rfl⟩
      | false =>
        rw [collapse, if_neg Bool.false_ne_true] at is
        subst is
        rw [related.collapse₂, runs₂] at runs
        cases runs
        rcases both with ⟨_, _, _, _, second, _⟩ | ⟨e', k₁, k₂, _, second, matched', _, depth⟩
        · cases second.symm.trans ends
        · cases second.symm.trans ends
          exact ⟨k₁, k, matched', by rw [unwind_same _ k depth]; rfl⟩

theorem enters_asked (config : Config) (i : Invocation) (s : Realm) (enters : s.Enters host config i) : Asked i s := by
  obtain ⟨r, errand, x, e, opens, runs, differs⟩ := enters
  by_contra never
  have fair (i' : Invocation) (s' : Realm) (asked : Asked i' s') : refuseOnce i s e i' s' = none := by
    rw [refuseOnce, if_neg]
    rintro ⟨rfl, rfl⟩
    exact never asked
  obtain ⟨r₁, r₂, matched, is⟩ := opens_matched host hosted config r opens
  obtain ⟨W, related⟩ := matched.related
  rcases errand_matched host hosted _ fair errand r₁ r₂ matched with
    ⟨none₁, none₂⟩ | ⟨x₁, x₂, runs₁, runs₂, same₁, same₂, _⟩
  · cases collapse : config.collapse with
    | true =>
      rw [is, collapse, if_pos rfl, related.collapse₁, none₁] at runs
      cases runs
    | false =>
      rw [is, collapse, if_neg Bool.false_ne_true, related.collapse₂, none₂] at runs
      cases runs
  · cases collapse : config.collapse with
    | true =>
      rw [collapse, if_pos rfl] at is
      subst is
      rw [related.collapse₁, runs₁] at runs
      cases runs
      exact differs same₁
    | false =>
      rw [collapse, if_neg Bool.false_ne_true] at is
      subst is
      rw [related.collapse₂, runs₂] at runs
      cases runs
      exact differs same₂

end

/-! The variable environment of code. -/

section

variable (W : World) (live : List Link) (h₁ h₂ : Heap) (related : HeapRelated W live [] h₁ h₂)
include related

theorem related_scope (opened₁ : (h₁.object Intrinsic.global).extensible = true) : h₁.GlobalScope ∧ h₂.GlobalScope := by
  obtain ⟨record₁, record₂⟩ := global_records W live h₁ h₂ related
  have object := related.object Intrinsic.global
  have known := related.home.2
  have kind : h₁.kind Intrinsic.global = .ordinary := by
    have kinds := kind_face W _ _ object.kind
    change (h₁.kind Intrinsic.global).face = (h₂.kind Intrinsic.global).face at kinds
    rw [related.home.1] at kinds
    generalize h₁.kind Intrinsic.global = k at kinds
    cases k with
    | function f => cases f <;> cases kinds
    | _ => first | rfl | cases kinds
  exact ⟨⟨record₁, kind, related.objects ▸ known, opened₁⟩, ⟨record₂, related.home.1, known, object.extensible ▸ opened₁⟩⟩

theorem open_declares (e₁ e₂ : EnvironmentId) (plain : Open W e₁ e₂) (loose : W.Loose e₂)
    (opened₁ : (h₁.object Intrinsic.global).extensible = true) : h₁.Declares e₁ ∧ h₂.Declares e₂ := by
  have globals := open_global W live e₁ e₂ plain h₁ h₂ related
  rw [Bool.eq_iff_iff, beq_iff_eq, beq_iff_eq] at globals
  rcases loose with rfl | ⟨info, hidden, upper, lower, found, shape⟩
  · have scopes := related_scope W live h₁ h₂ related opened₁
    exact ⟨.inl ⟨globals.mpr rfl, scopes.1⟩, .inl ⟨rfl, scopes.2⟩⟩
  · have other₂ : e₂ ≠ Intrinsic.globalEnvironment := by
      rintro rfl
      obtain ⟨top, found', _, object⟩ := related.global
      cases Option.some.inj (found.symm.trans found')
      rw [shape] at object
      cases object
    have other₁ : e₁ ≠ Intrinsic.globalEnvironment := fun same => other₂ (globals.mp same)
    obtain ⟨record, environment⟩ := related.environment e₂ info found
    have describes := environment.describes
    rw [shape] at describes
    obtain ⟨b, rfl, _, _, _, only⟩ := describes
    have mutable (name : String) (binding : Binding) (there : Dictionary.find? b name = some binding) :
        binding.state.isMutable = true := by
      by_contra fixed
      exact List.not_mem_nil (Bindings.constant_found _ b name binding only there (eq_false_of_ne_true fixed))
    refine ⟨.inr ⟨Dictionary.without b hidden, ⟨⟨info.around₁, ?_⟩, fun name binding there => ?_, other₁⟩⟩,
      .inr ⟨b, ⟨⟨info.around₂, environment.second⟩, mutable, other₂⟩⟩⟩
    · obtain ⟨_, info', found', twin, _⟩ := open_twins W e₁ e₂ plain ""
      cases Option.some.inj (found.symm.trans found')
      have first := environment.first e₁ twin
      rw [shape] at first
      exact first
    · rw [Dictionary.find_without] at there
      split at there
      · cases there
      · exact mutable name binding there

end

end Storage

/-- Wherever code is entered while the global object takes further properties, it can declare names. -/
theorem entered_declares (host : HostFunction) (hosted : host.Sighted) (config : Config) (routine : Routine)
    (lexical env : EnvironmentId) (this : Value) (deletable : Bool) (r : Realm)
    (enters : r.Enters host config (.code routine lexical env this deletable))
    (opened : (r.heap.object Intrinsic.global).extensible = true) : r.heap.Declares env := by
  obtain ⟨W, live, i, s, ⟨related, invocations⟩ | ⟨related, invocations⟩⟩ :=
    Storage.enters_asked host hosted config _ r enters
  · cases invocations with
    | code _ _ _ _ _ _ _ _ _ _ _ _ _ plain loose =>
      exact (Storage.open_declares W live _ _ related.heap _ _ plain loose opened).1
  · cases invocations with
    | code _ _ _ _ _ _ _ _ _ _ _ _ _ plain loose =>
      refine (Storage.open_declares W live _ _ related.heap _ _ plain loose ?_).2
      rw [(related.heap.object _).extensible]
      exact opened

/-- Global and eval code declares its names in environments that take them. Unless a function would replace a global
property that stands in its way, this succeeds: each name of a function stands for the last one, new variables are
undefined, and other names are left alone. A name is deletable as it is asked for where it is new or where it replaces
a configurable global property. Otherwise a `TypeError` is thrown at the first such function; only the functions before
it are bound. What is declared is read, and deleted if it may be. -/
theorem declarations_instantiated (host : HostFunction) (hosted : host.Sighted) (config : Config) :
    (∀ routine lexical env this deletable (r : Realm), r.Enters host config (.code routine lexical env this deletable) →
      (r.heap.object Intrinsic.global).extensible = true → r.heap.Declares env) ∧
    (∀ (r : Realm) env, r.heap.Declares env → ∀ routine deletable m,
      (¬ r.heap.Obstructed env routine → ∃ k, declare routine env deletable m r = .ok () (r.withHeap k) ∧
        r.heap.Declared k env deletable routine) ∧
      (r.heap.Obstructed env routine → ∃ before f after name k, routine.functions = before ++ f :: after ∧
        f.header.name = some name ∧ k.Blocks name ∧ r.heap.FunctionsBound k env deletable before ∧
        declare routine env deletable m r = .error (.thrown (.object k.objects.size))
          ((r.withHeap k).withError .typeError s!"Cannot redeclare function '{name}'") ∧
        ∀ other, lastNamed other before = none → r.heap.SameUnder
          ((r.withHeap k).withError .typeError s!"Cannot redeclare function '{name}'").heap env other)) ∧
    ∀ (r : Realm) env, r.heap.Declares env → ∀ name v c, r.heap.Holds env name v c → ∀ m,
      (∀ strict, getBinding env name strict m r = .ok v r) ∧
        ∃ k, deleteBinding env name m r = .ok c (r.withHeap k) := by
  refine ⟨entered_declares host hosted config, fun r env declares routine deletable m => ⟨?_, ?_⟩,
    fun r env declares name v c held m => ⟨?_, ?_⟩⟩
  · exact declare_succeeds m r env declares routine deletable
  · exact declare_fails m r env declares routine deletable
  · exact holds_read m r env declares name v c held
  · exact holds_deleted m r env declares name v c held

-- A program that a host evaluates first of all.
theorem declarations_instantiated_program : ∃ (routine : Routine) (r : Realm),
    callingHost.Sighted ∧
    r.Enters callingHost {} (.code routine Intrinsic.globalEnvironment Intrinsic.globalEnvironment
      (.object Intrinsic.global) false) ∧
    (r.heap.object Intrinsic.global).extensible = true ∧ r.heap.Declares Intrinsic.globalEnvironment ∧
    ¬ r.heap.Obstructed Intrinsic.globalEnvironment routine ∧
    ∀ m, ∃ k f, declare routine Intrinsic.globalEnvironment false m r = .ok () (r.withHeap k) ∧
      (∀ strict, getBinding Intrinsic.globalEnvironment "f" strict m (r.withHeap k) = .ok (.object f) (r.withHeap k)) ∧
      (∀ strict, getBinding Intrinsic.globalEnvironment "x" strict m (r.withHeap k) = .ok .undefined (r.withHeap k)) ∧
      ∃ l, deleteBinding Intrinsic.globalEnvironment "x" m (r.withHeap k) = .ok false ((r.withHeap k).withHeap l) := by
  let text := "function f() \x7b \x7d var x"
  have found : (parseProgram text "main.js" true).toOption.map (fun p =>
      (p.code.functions.filterMap fun f => f.header.name, p.code.header.variables)) = some (["f"], ["x"]) := by
    decide +kernel
  -- nothing is to be computed of the fresh realm but this
  obtain ⟨r, opens, collapse, opened, absent⟩ : ∃ r : Realm, r.Opens callingHost {} ∧ r.config.collapse = true ∧
      (r.heap.object Intrinsic.global).extensible = true ∧
      (["f", "x"].all fun name => (r.heap.property? Intrinsic.global (.ofString name)).isNone) = true :=
    ⟨Realm.create {}, .between [], by decide +kernel, by decide +kernel, by decide +kernel⟩
  have absent (name : String) (one : name ∈ ["f", "x"]) : r.heap.property? Intrinsic.global (.ofString name) = none :=
    Option.isNone_iff_eq_none.mp (List.all_eq_true.mp absent name one)
  cases parses : parseProgram text "main.js" true with
  | error e =>
    rw [parses] at found
    cases found
  | ok parsed =>
    rw [parses] at found
    obtain ⟨named, listed⟩ := Prod.mk.inj (Option.some.inj found)
    obtain ⟨begins, declaring, holding⟩ := declarations_instantiated callingHost calling_host_sighted {}
    have runs : (Errand.program text "main.js").run? r.config.collapse =
        some (Run.enter (.code (compile parsed) Intrinsic.globalEnvironment Intrinsic.globalEnvironment
          (.object Intrinsic.global) false)) := by
      rw [collapse, Errand.run?, parses]
      rfl
    have enters := enters_first callingHost {} _ r _ opens runs
    have declares := begins _ _ _ _ _ r enters opened
    have names : ((compile parsed).functions.filterMap fun f => f.header.name) = ["f"] := by
      rw [compile, compiled_functions, compiled_names]
      exact named
    have variables' : (compile parsed).header.variables = ["x"] := by
      rw [compile, compiled_header]
      exact listed
    have unbound : r.heap.bound? Intrinsic.globalEnvironment "x" = none :=
      (r.heap.global_bound (r.heap.global_declares declares) "x").trans (absent "x" (by decide))
    have free : ¬ r.heap.Obstructed Intrinsic.globalEnvironment (compile parsed) := by
      rintro ⟨_, name, last, d, there, _⟩
      rw [last_named_member, names, List.mem_singleton] at last
      cases there.symm.trans (absent name (last ▸ List.mem_cons_self))
    refine ⟨compile parsed, r, calling_host_sighted, enters, opened, declares, free, fun m => ?_⟩
    obtain ⟨k, ends, after⟩ := (declaring r _ declares (compile parsed) false m).1 free
    obtain ⟨f, last⟩ := Option.ne_none_iff_exists'.mp
      ((last_named_member "f" _).mpr (names ▸ List.mem_singleton_self "f"))
    obtain ⟨id, c, _, _, held, _⟩ := after.functions "f" f last
    have other : lastNamed "x" (compile parsed).functions = none := by
      by_contra named
      rw [← ne_eq, last_named_member, names] at named
      exact absurd named (by decide)
    have fresh := after.fresh "x" (variables' ▸ List.mem_singleton_self "x") other unbound
    have first := holding (r.withHeap k) _ after.declares "f" _ c held m
    have second := holding (r.withHeap k) _ after.declares "x" _ false fresh m
    exact ⟨k, id, ends, first.1, second.1, second.2⟩

end Ecma
