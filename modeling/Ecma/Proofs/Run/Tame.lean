import Ecma.Proofs.Eval.Activation
import Ecma.Proofs.Operation.Native
import Ecma.Proofs.Reach.Region
import Ecma.Proofs.Run.Careful

set_option autoImplicit false

/-!
Runs that stay in a part of what there is. They look at nothing but what belongs to the part, and what they store,
throw and give back belongs to it, or to a larger part with what they have made.
-/

namespace Ecma

open Ecma.Program Run

/-! What belongs to a part. -/

-- Something that can be known of what a run gives, with regard to a part.
abbrev Notion (α : Type) :=
  Region → α → Prop

def Vague {α : Type} : Notion α :=
  fun _ _ => True

section

variable (w : Region)

def Values.In (vs : List Value) : Prop :=
  ∀ v ∈ vs, v.In w

def Items.In (items : List (Option Value)) : Prop :=
  ∀ v, some v ∈ items → v.In w

def OptionalValue.In (v : Option Value) : Prop :=
  ∀ u, v = some u → u.In w

theorem OptionalValue.in_none : OptionalValue.In w none := by
  intro u same
  cases same

def Completion.In (c : Completion) : Prop :=
  OptionalValue.In w c.value

def Definition.In (d : Definition) : Prop :=
  d.All (Value.In w)

def Reference.In (r : Reference) : Prop :=
  match r.base with
  | .value v => v.In w
  | .environment env => w.environment env
  | .unresolvable => True

def Place.In : Place → Prop
  | .reference r => r.In w
  | .property base _ => base.In w
  | _ => True

-- It may matter that a constant without a value is blank.
structure Binding.In (blank : Prop) (b : Binding) : Prop where
  value : b.value.In w
  blank : blank → b.state = .uninitialized → b.value = .undefined

-- Where a parameter lives.
def Alias.In : Alias → Prop
  | .slot frame _ => w.frame frame
  | .binding env _ => w.environment env

structure Context.In (c : Context) : Prop where
  this : c.this.In w
  lexical : w.environment c.lexicalEnv
  «variable» : w.environment c.variableEnv
  frame : w.frame c.frame

def Invocation.In : Invocation → Prop
  | .call f this args => w.object f ∧ this.In w ∧ Values.In w args
  | .construct f args => w.object f ∧ Values.In w args
  | .code routine lexicalEnv variableEnv this _ =>
    routine.Plain ∧ w.environment lexicalEnv ∧ w.environment variableEnv ∧ this.In w

end

section

variable {w w' : Region} (upto : w.Upto w')
include upto

theorem Values.In.more {vs : List Value} (inside : Values.In w vs) : Values.In w' vs := by
  exact fun v member => (inside v member).more upto

theorem OptionalValue.In.more {v : Option Value} (inside : OptionalValue.In w v) : OptionalValue.In w' v := by
  exact fun u same => (inside u same).more upto

theorem Definition.In.more {d : Definition} (inside : d.In w) : d.In w' := by
  exact ⟨fun v same => (inside.value v same).more upto, fun f same => (inside.getter f same).more upto,
    fun f same => (inside.setter f same).more upto⟩

theorem Reference.In.more {r : Reference} (inside : r.In w) : r.In w' := by
  unfold Reference.In at inside ⊢
  split
  · next v base =>
    rw [base] at inside
    exact Value.In.more upto inside
  · next env base =>
    rw [base] at inside
    exact upto.environment env inside
  · trivial

theorem Place.In.more {p : Place} (inside : p.In w) : p.In w' := by
  cases p with
  | reference r => exact Reference.In.more upto inside
  | property base key => exact Value.In.more upto inside
  | _ => trivial

theorem Context.In.more {c : Context} (inside : c.In w) : c.In w' := by
  exact ⟨inside.this.more upto, upto.environment _ inside.lexical, upto.environment _ inside.variable,
    upto.frame _ inside.frame⟩

theorem Alias.In.more {a : Alias} (inside : a.In w) : a.In w' := by
  cases a with
  | slot frame index => exact upto.frame frame inside
  | binding env name => exact upto.environment env inside

theorem Invocation.In.more {invocation : Invocation} (inside : invocation.In w) : invocation.In w' := by
  cases invocation with
  | call f this args => exact ⟨upto.object f inside.1, inside.2.1.more upto, Values.In.more upto inside.2.2⟩
  | construct f args => exact ⟨upto.object f inside.1, Values.In.more upto inside.2⟩
  | code routine lexicalEnv variableEnv this deletable =>
    exact ⟨inside.1, upto.environment _ inside.2.1, upto.environment _ inside.2.2.1, inside.2.2.2.more upto⟩

end

-- The first of two values, if there is one.
theorem or_in {w : Region} (first second : Option Value) (held : OptionalValue.In w first)
    (held' : OptionalValue.In w second) : OptionalValue.In w (first.or second) := by
  intro v found
  rcases Option.or_eq_some_iff.mp found with own | ⟨_, other⟩
  · exact held v own
  · exact held' v other

/-! Two realms. -/

/-- Realms that differ in their heaps only, which agree on a part. -/
structure Realm.AlikeIn (w : Region) (r s : Realm) : Prop where
  heap : r.heap.AlikeIn w s.heap
  same : s = r.withHeap s.heap
  handlers : Dictionary.All (Value.In w) r.handlers

section

variable (r s : Realm) (same : s = r.withHeap s.heap)
include same

theorem same_running : s.running = r.running := by
  rw [same]
  rfl

theorem same_waiting : s.waiting = r.waiting := by
  rw [same]
  rfl

theorem same_config : s.config = r.config := by
  rw [same]
  rfl

theorem same_handlers : s.handlers = r.handlers := by
  rw [same]
  rfl

theorem same_trace_limit {w : Region} (alike : r.heap.AlikeIn w s.heap) : s.traceLimit = r.traceLimit := by
  rw [Realm.traceLimit, Realm.traceLimit, same_config r s same,
    Heap.own_alike r.heap s.heap alike _ _ (alike.intrinsic Intrinsic.errorConstructor (by decide))]

theorem same_trace {w : Region} (alike : r.heap.AlikeIn w s.heap) : s.captureStack = r.captureStack := by
  rw [Realm.captureStack, Realm.captureStack, same_trace_limit r s same alike, same_running r s same,
    same_waiting r s same]

end

theorem Realm.Grounded.part {r : Realm} (grounded : r.Grounded) : r.AlikeIn r.extent.part r := by
  exact ⟨grounded.heap.part, rfl, grounded.handlers⟩

/-! Tame runs. -/

-- The flag says whether a run is one of code, which may look at its context and move in it. What follows is tame in
-- all larger parts.
inductive Tame : {α : Type} → Region → Bool → Run α → Notion α → Prop
  | pure {α : Type} {w : Region} {moves : Bool} (a : α) (gives : Notion α) (held : ∀ w', w.Upto w' → gives w' a) :
      Tame w moves (pure a) gives
  | imp {α : Type} {w : Region} {moves : Bool} (x : Run α) (gives gives' : Notion α) (tame : Tame w moves x gives)
      (imp : ∀ w' a, w.Upto w' → gives w' a → gives' w' a) : Tame w moves x gives'
  | bind {α β : Type} {w : Region} {moves : Bool} (x : Run α) (f : α → Run β) (gives : Notion α) (gives' : Notion β)
      (first : Tame w moves x gives) (second : ∀ a w', w.Upto w' → gives w' a → Tame w' moves (f a) gives') :
      Tame w moves (x >>= f) gives'
  /-- What is known of heaps that agree on a part can be used to see that a run is tame. -/
  | here {α : Type} {w : Region} {moves : Bool} (x : Run α) (gives : Notion α)
      (each : ∀ (h k : Heap) w', w.Upto w' → h.AlikeIn w' k → Tame w' moves x gives) : Tame w moves x gives
  | throwing {α : Type} {w : Region} {moves : Bool} (v : Value) (gives : Notion α) (held : v.In w) :
      Tame w moves (throw (.thrown v) : Run α) gives
  /-- A look at the realm sees the same in all realms that agree on the part. -/
  | look {α : Type} {w : Region} {moves : Bool} (f : Realm → Run α) (gives : Notion α)
      (same : ∀ (r s : Realm) w', w.Upto w' → r.AlikeIn w' s → f s = f r)
      (each : ∀ (r s : Realm) w', w.Upto w' → r.AlikeIn w' s → Tame w' moves (f r) gives) :
      Tame w moves (MonadState.get >>= f) gives
  | running {α : Type} {w : Region} (f : Context → Run α) (gives : Notion α)
      (each : ∀ c w', w.Upto w' → c.In w' → Tame w' true (f c) gives) : Tame w true (running >>= f) gives
  | found {w : Region} (v : Variable) (strict : Bool) : Tame w true (placeOf v strict) Place.In
  | beside {w : Region} {moves : Bool} (f : Realm → Realm) (outward : Outward f)
      (apart : ∀ r h, f (Realm.withHeap r h) = (f r).withHeap h)
      (handlers : ∀ (r : Realm) w', w.Upto w' → Dictionary.All (Value.In w') r.handlers →
        Dictionary.All (Value.In w') (f r).handlers) : Tame w moves (modify f) Vague
  | object {w : Region} {moves : Bool} (o : Object) (regular : ∀ h : Heap, h.Regular (h.addObject o).2) (inside : o.In w)
      (tidy : o.Tidy) (mapped : ∀ i a, o.kind.mapped.lookup i = some a → a.In w) :
      Tame w moves (updateHeap fun h => h.addObject o) Region.object
  | function {w : Region} {moves : Bool} (routine : Routine) (scope : EnvironmentId) (plain : routine.Plain)
      (inside : w.environment scope) : Tame w moves (newFunction routine scope) Region.object
  | environment {w : Region} {moves : Bool} (e : Environment) (inside : e.In w)
      (empty : ∀ b, e.record = .declarative b → b = []) :
      Tame w moves (updateHeap fun h => h.addEnvironment e) Region.environment
  | define {α : Type} {w : Region} {moves : Bool} (id : ObjectId) (key : PropertyKey) (d : Definition) (other : Run α)
      (k : Bool → Run α) (gives : Notion α) (oneKind : d.OneKind) (inside : w.object id) (held : d.In w)
      (otherwise : Tame w moves other gives) (after : ∀ accepted w', w.Upto w' → Tame w' moves (k accepted) gives) :
      Tame w moves (heap >>= fun h => if h.isArray id && key == .length && d.value.isSome then other
        else updateHeap (fun h => h.define id key d) >>= k) gives
  | length {w : Region} {moves : Bool} (id : ObjectId) (d : Definition) (length : Nat) (old : Nat × Bool)
      (isValue : d.isAccessor = false) (short : length < Number.wordCount) (inside : w.object id) :
      Tame w moves (updateHeap fun h => h.defineLength id d length old) Vague
  | delete {w : Region} {moves : Bool} (id : ObjectId) (key : PropertyKey) (inside : w.object id) :
      Tame w moves (updateHeap fun h => h.delete id key) Vague
  | close {w : Region} {moves : Bool} (id : ObjectId) (inside : w.object id) :
      Tame w moves (modifyHeap fun h => h.preventExtensions id) Vague
  | override {w : Region} {moves : Bool} (v : Value) (primitive : v.isObject = false) : Tame w moves
      (modifyHeap fun h => h.store Intrinsic.errorConstructor (.name "stackTraceLimit") (.free v)) Vague
  | bindings {w : Region} {moves : Bool} (env : EnvironmentId) (f : Bindings → Bindings) (inside : w.environment env)
      (keeps : ∀ w' blank b, w.Upto w' → Dictionary.All (Binding.In w' blank) b →
        Dictionary.All (Binding.In w' blank) (f b)) :
      Tame w moves (modifyHeap fun h => h.modifyBindings env f) Vague
  | slot {w : Region} {moves : Bool} (index : Nat) (v : Value) (held : v.In w) : Tame w moves (setSlot index v) Vague
  | position {w : Region} (position : Nat) : Tame w true (setPosition position) Vague
  | step {w : Region} {moves : Bool} : Tame w moves step Vague
  | within {α : Type} {w : Region} (env : EnvironmentId) (body : Run α) (gives : Notion α) (around : w.environment env)
      (inside : Tame w true body gives) : Tame w true (inEnvironment env body) gives
  | catching {w : Region} {moves : Bool} (block : Run Completion) (handler : Value → Run Completion)
      (body : Tame w moves block Completion.In)
      (rest : ∀ v w', w.Upto w' → v.In w' → Tame w' moves (handler v) Completion.In) :
      Tame w moves (catching block handler) Completion.In
  | thenFinally {w : Region} {moves : Bool} (block finalizer : Run Completion) (body : Tame w moves block Completion.In)
      (rest : ∀ w', w.Upto w' → Tame w' moves finalizer Completion.In) :
      Tame w moves (thenFinally block finalizer) Completion.In
  | whileRounds {w : Region} {moves : Bool} (labels : List Label) (test : Run Bool) (body : Run Completion)
      (update : Run Unit) (tests : ∀ w', w.Upto w' → Tame w' moves test Vague)
      (runs : ∀ w', w.Upto w' → Tame w' moves body Completion.In)
      (updates : ∀ w', w.Upto w' → Tame w' moves update Vague) :
      Tame w moves (whileRounds labels test body update) Completion.In
  | doRounds {w : Region} {moves : Bool} (labels : List Label) (body : Run Completion) (test : Run Bool)
      (runs : ∀ w', w.Upto w' → Tame w' moves body Completion.In)
      (tests : ∀ w', w.Upto w' → Tame w' moves test Vague) : Tame w moves (doRounds labels body test) Completion.In
  | nameRounds {w : Region} {moves : Bool} (labels : List Label) (id : ObjectId) (assign : Value → Run Unit)
      (body : Run Completion) (inside : w.object id)
      (assigns : ∀ s w', w.Upto w' → Tame w' moves (assign (.string s)) Vague)
      (runs : ∀ w', w.Upto w' → Tame w' moves body Completion.In) :
      Tame w moves (nameRounds labels id assign body) Completion.In
  | enter {w : Region} {moves : Bool} (invocation : Invocation) (held : invocation.In w) :
      Tame w moves (enter invocation) Value.In

section

variable {w : Region} {moves : Bool} {α β : Type}

/-! What is given. -/

theorem tame_any (a : α) : Tame w moves (pure a) Vague := by
  exact .pure a _ fun _ _ => trivial

theorem tame_value (v : Value) (held : v.In w) : Tame w moves (pure v) Value.In := by
  exact .pure v _ fun _ upto => held.more upto

theorem tame_primitive (v : Value) (primitive : v.isObject = false) : Tame w moves (pure v) Value.In := by
  exact tame_value v (in_primitive w v primitive)

theorem tame_id (id : ObjectId) (inside : w.object id) : Tame w moves (pure id) Region.object := by
  exact .pure id _ fun _ upto => inside.more upto

theorem tame_then (x : Run α) (f : α → Run β) (gives : Notion α) (gives' : Notion β) (first : Tame w moves x gives)
    (second : ∀ a w', w.Upto w' → Tame w' moves (f a) gives') : Tame w moves (x >>= f) gives' := by
  exact .bind x f gives gives' first fun a w' upto _ => second a w' upto

theorem tame_after (x : Run α) (f : α → β) (gives : Notion α) (gives' : Notion β) (first : Tame w moves x gives)
    (imp : ∀ w' a, w.Upto w' → gives w' a → ∀ w'', w'.Upto w'' → gives' w'' (f a)) :
    Tame w moves (x >>= fun a => pure (f a)) gives' := by
  exact .bind x _ gives gives' first fun a w' upto held => .pure (f a) _ (imp w' a upto held)

-- A primitive that is made of what a run gives.
theorem tame_made (x : Run α) (f : α → Value) (gives : Notion α) (first : Tame w moves x gives)
    (primitive : ∀ a, (f a).isObject = false) : Tame w moves (x >>= fun a => pure (f a)) Value.In := by
  exact tame_after x f gives _ first fun _ a _ _ w'' _ => in_primitive w'' (f a) (primitive a)

theorem tame_made_object (x : Run ObjectId) (first : Tame w moves x Region.object) :
    Tame w moves (x >>= fun id => pure (Value.object id)) Value.In := by
  exact tame_after x _ _ _ first fun _ _ _ inside _ upto => inside.more upto

theorem tame_drop (x : Run α) (f : α → β) (gives : Notion α) (first : Tame w moves x gives) :
    Tame w moves (x >>= fun a => pure (f a)) Vague := by
  exact tame_after x f gives _ first fun _ _ _ _ _ _ => trivial

theorem tame_discard (x : Run α) (gives : Notion α) (tame : Tame w moves x gives) :
    Tame w moves (discard x : Run PUnit) Vague := by
  have whole : (discard x : Run PUnit) = (fun _ => PUnit.unit) <$> x := by
    rfl
  rw [whole, ← bind_pure_comp]
  exact tame_drop x _ gives tame

theorem tame_ite (c : Prop) [Decidable c] (x y : Run α) (gives : Notion α) (yes : Tame w moves x gives)
    (no : Tame w moves y gives) : Tame w moves (if c then x else y) gives := by
  split
  · exact yes
  · exact no

/-! Looking at the realm. -/

theorem tame_look (f : Realm → Run α) (gives : Notion α)
    (each : ∀ (r s : Realm) w', w.Upto w' → r.AlikeIn w' s → f s = f r ∧ Tame w' moves (f r) gives) :
    Tame w moves (MonadState.get >>= f) gives := by
  exact .look f gives (fun r s w' upto alike => (each r s w' upto alike).1)
    fun r s w' upto alike => (each r s w' upto alike).2

theorem tame_heap (f : Heap → Run α) (gives : Notion α)
    (each : ∀ (h k : Heap) w', w.Upto w' → h.AlikeIn w' k → f k = f h ∧ Tame w' moves (f h) gives) :
    Tame w moves (heap >>= f) gives := by
  have whole : (heap >>= f) = ((MonadState.get : Run Realm) >>= fun r => f r.heap) := by
    rfl
  rw [whole]
  exact tame_look _ _ fun r s w' upto alike => each r.heap s.heap w' upto alike.heap

/-! Objects. -/

theorem data_primitive (v : Value) (primitive : v.isObject = false) (x e c : Bool) :
    (Descriptor.data v x e c).All (Value.In w) := by
  exact (Descriptor.all_data v x e c).mpr (in_primitive w v primitive)

-- Objects with named properties, of all kinds that nothing is known of otherwise.
theorem tame_bare (kind : ObjectKind) (prototype : Option ObjectId) (names : Dictionary Descriptor)
    (plain : kind.isArray = false) (unmapped : kind.mapped = []) (link : ∀ link, prototype = some link → w.object link)
    (callable : ∀ f, kind.callable? = some f → f.In w) (held : Dictionary.All (Descriptor.All (Value.In w)) names)
    (distinct : names.keys.Nodup) : Tame w moves (newObject kind prototype (.ofNames names)) Region.object := by
  refine .object _ (fun h => .object _ _ plain fun i a found => ?_)
    ⟨link, callable, PropertyTable.all_of_names names held⟩
    ⟨distinct, fun _ _ _ _ => Std.TreeMap.getElem?_emptyc⟩ fun i a found => ?_
  · rw [unmapped] at found
    cases found
  · rw [unmapped] at found
    cases found

-- Those with a prototype that every realm has.
theorem tame_names (kind : ObjectKind) (prototype : ObjectId) (names : Dictionary Descriptor)
    (plain : kind.isArray = false) (unmapped : kind.mapped = []) (link : prototype ≤ 16)
    (callable : ∀ f, kind.callable? = some f → f.In w)
    (held : Dictionary.All (Descriptor.All (Value.In w)) names) (distinct : names.keys.Nodup) :
    Tame w moves (newObject kind (some prototype) (.ofNames names)) Region.object := by
  refine .here _ _ fun h k w' upto alike => ?_
  refine tame_bare kind _ names plain unmapped (fun link' same => ?_) (fun f same => (callable f same).more upto)
    (fun entry member => Descriptor.all_imp _ (fun v inside => inside.more upto) (held entry member)) distinct
  cases same
  exact alike.intrinsic _ link

theorem tame_plain : Tame w moves newPlainObject Region.object := by
  exact tame_names _ _ [] rfl rfl (by decide) nofun nofun List.nodup_nil

theorem new_scope_tame (outer : EnvironmentId) (inside : w.environment outer) :
    Tame w moves (newScope outer) Region.environment := by
  refine .environment _ ⟨fun link same => ?_, fun b same => ?_, nofun⟩ fun b same => ?_
  · cases same
    exact inside
  · cases same
    exact nofun
  · cases same
    rfl

/-! Errors. -/

theorem tame_error_from (prototype : ObjectId) (message : Option Value) (link : prototype ≤ 16)
    (held : OptionalValue.In w message) : Tame w moves (newErrorFrom prototype message) Region.object := by
  refine tame_look _ _ fun r s w' upto alike => ⟨by rw [same_trace r s alike.same alike.heap], ?_⟩
  refine tame_names _ _ _ rfl rfl link nofun ?_ ?_
  · cases message with
    | none => exact nofun
    | some v => exact names_single _ _ ((Descriptor.all_data _ _ _ _).mpr ((held v rfl).more upto))
  · cases message with
    | none => exact List.nodup_nil
    | some v => exact List.nodup_singleton _

-- After an error nothing is given.
theorem tame_error (kind : ErrorKind) (message : String) (gives : Notion α) :
    Tame w moves (Run.throwError kind message : Run α) gives := by
  refine .bind _ _ Region.object _ (tame_error_from _ _ (by cases kind <;> decide) fun v given => ?_)
    fun id w' upto inside => .throwing _ _ inside
  split at given
  · cases given
  · cases given
    trivial

theorem tame_refused (message : String) (gives : Notion α) : Tame w moves (throwTypeError message : Run α) gives := by
  exact tame_error _ _ _

-- What would come after an error does not matter.
theorem tame_stopped (kind : ErrorKind) (message : String) (f : PUnit → Run β) (gives : Notion β) :
    Tame w moves ((Run.throwError kind message : Run PUnit) >>= f) gives := by
  exact .bind _ _ (fun _ _ => False) _ (tame_error _ _ _) fun _ _ _ never => never.elim

theorem tame_parsed (text : String) (result : Except Syntax.SyntaxError Syntax.Parsed) :
    Tame w moves (parsedOr text result) Vague := by
  cases result with
  | ok parsed => exact tame_any parsed
  | error e => exact tame_error _ _ _

end

/-! With regard to all that has been made. -/

theorem tame_careful {α : Type} {p : Region} {moves : Bool} {x : Run α} {gives : Notion α} (tame : Tame p moves x gives)
    (w : Extent) (upto : p.Upto w.part) : Careful w moves x fun w => gives w.part := by
  induction tame generalizing w with
  | pure a gives held => exact .pure a _ fun w' more => held w'.part (upto.trans more.part)
  | imp x gives gives' _ imp hyp =>
    exact .imp _ _ _ (hyp w upto) fun w' a more => imp w'.part a (upto.trans more.part)
  | bind x f gives gives' _ _ first second =>
    exact .bind _ _ _ _ (first w upto) fun a w' more held => second a w'.part (upto.trans more.part) held w' (.refl _)
  | here x gives _ each =>
    exact .here _ _ fun r grounded more =>
      each r.heap r.heap r.extent.part (upto.trans more.part) grounded.heap.part r.extent (.refl _)
  | throwing v gives held => exact .throwing v _ (held.more upto)
  | look f gives _ _ each =>
    exact .look _ _ fun r grounded more => each r r r.extent.part (upto.trans more.part) grounded.part r.extent (.refl _)
  | running f gives _ each =>
    refine .look (fun r => f r.running) _ fun r grounded more => ?_
    exact each r.running r.extent.part (upto.trans more.part) ⟨grounded.running.this, grounded.running.lexical,
      grounded.running.variable, trivial⟩ r.extent (.refl _)
  | found v strict => exact .found v strict
  | beside f outward _ handlers =>
    exact .beside f outward fun r grounded more => handlers r r.extent.part (upto.trans more.part) grounded.handlers
  | object o regular inside tidy mapped =>
    refine .update _ _ regular (fun h grounded more => Heap.orderly_object h grounded o ?_) fun h _ _ => ?_
    · have inside := inside.more (upto.trans more.part)
      exact ⟨inside.prototype, inside.callable, inside.table, tidy⟩
    · change h.objects.size < (h.objects.push o).size
      rw [Array.size_push]
      exact Nat.lt_succ_self _
  | function routine scope plain inside => exact .function routine scope plain (upto.environment scope inside)
  | environment e inside empty =>
    refine .update _ _ (fun h => .environment h e) (fun h grounded more => ?_) fun h _ _ => ?_
    · have inside := inside.more (upto.trans more.part)
      exact Heap.orderly_environment h grounded e ⟨inside.outer, inside.bindings, inside.record⟩
    · change h.environments.size < (h.environments.push e).size
      rw [Array.size_push]
      exact Nat.lt_succ_self _
  | define id key d other k gives oneKind _ held _ _ otherwise after =>
    exact .define id key d other k _ oneKind (held.more upto) (otherwise w upto) fun accepted w' more =>
      after accepted w'.part (upto.trans more.part) w' (.refl _)
  | length id d length old isValue short _ =>
    exact .update _ _ (fun h => .length h id d length old isValue short)
      (fun h grounded _ => Heap.orderly_length h grounded id d length old) fun _ _ _ => trivial
  | delete id key _ =>
    exact .update _ _ (fun h => .delete h id key) (fun h grounded _ => Heap.orderly_delete h grounded id key)
      fun _ _ _ => trivial
  | close id _ =>
    exact .update (fun h => (PUnit.unit, h.preventExtensions id)) _ (fun h => .close h id)
      (fun h grounded _ => Heap.orderly_shift h grounded _ (.close h id)) fun _ _ _ => trivial
  | override v primitive =>
    refine .update (fun h => (PUnit.unit, _)) _ (fun h => .override h v) (fun h grounded _ => ?_) fun _ _ _ => trivial
    refine Heap.orderly_shift h grounded _ (.store h _ _ _ ?_ (.inr ⟨_, rfl⟩))
    exact (Descriptor.all_data _ _ _ _).mpr (within_primitive _ v primitive)
  | bindings env f _ keeps =>
    refine .update (fun h => (PUnit.unit, h.modifyBindings env f)) _ (fun h => .bindings h env f) (fun h grounded more => ?_)
      fun _ _ _ => trivial
    refine Heap.orderly_shift h grounded _ (.bindings h env f fun b all entry member => ?_)
    exact (keeps h.extent.part False b (upto.trans more.part) (fun entry member => ⟨all entry member, False.elim⟩) entry
      member).value
  | slot index v held =>
    refine .look (fun r => modifyHeap fun h => h.setSlot r.running.frame index v) _ fun r _ more => ?_
    refine .update (fun h => (PUnit.unit, _)) _ (fun h => .slot h _ index v) (fun h grounded more' => ?_) fun _ _ _ => trivial
    exact Heap.orderly_shift h grounded _ (.slot h _ index v (held.more ((upto.trans more.part).trans more'.part)))
  | position position =>
    exact .place _ (fun _ => ⟨rfl, rfl⟩) fun _ _ _ within => ⟨within.this, within.lexical, within.variable⟩
  | step => exact .step
  | within env body gives around _ inside => exact .within env body _ (upto.environment env around) (inside w upto)
  | catching block handler _ _ body rest =>
    exact .catching _ _ (body w upto) fun v w' more held => rest v w'.part (upto.trans more.part) held w' (.refl _)
  | thenFinally block finalizer _ _ body rest =>
    exact .thenFinally _ _ (body w upto) fun w' more => rest w'.part (upto.trans more.part) w' (.refl _)
  | whileRounds labels test body update _ _ _ tests runs updates =>
    exact .whileRounds labels _ _ _ (fun w' more => tests w'.part (upto.trans more.part) w' (.refl _))
      (fun w' more => runs w'.part (upto.trans more.part) w' (.refl _))
      fun w' more => updates w'.part (upto.trans more.part) w' (.refl _)
  | doRounds labels body test _ _ runs tests =>
    exact .doRounds labels _ _ (fun w' more => runs w'.part (upto.trans more.part) w' (.refl _))
      fun w' more => tests w'.part (upto.trans more.part) w' (.refl _)
  | nameRounds labels id assign body _ _ _ assigns runs =>
    exact .nameRounds labels id _ _ (fun s w' more => assigns s w'.part (upto.trans more.part) w' (.refl _))
      fun w' more => runs w'.part (upto.trans more.part) w' (.refl _)
  | enter invocation held => exact .enter invocation (Invocation.In.more upto held)

theorem part_careful {α : Type} {w : Extent} {moves : Bool} {x : Run α} {gives : Notion α}
    (tame : Tame w.part moves x gives) : Careful w moves x fun w => gives w.part := by
  exact tame_careful tame w (.refl _)

end Ecma
