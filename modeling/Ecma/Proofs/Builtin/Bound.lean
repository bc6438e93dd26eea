import Ecma.Builtin.Function
import Ecma.Proofs.Heap.Founded
import Ecma.Proofs.Realm.Grounded

set_option autoImplicit false

/-!
Functions that `bind` makes of functions, and of those that it has made. Whatever is done with the last of such a chain
is done with the function at its start: it gets the receiver that was bound first, and all arguments that were bound, in
the order in which they were.
-/

namespace Ecma

open Run

/-! Chains. -/

-- The receivers and arguments of a chain come from the one that was bound first.
def boundReceiver (links : List (Value × List Value)) (this : Value) : Value :=
  (links.head?.map Prod.fst).getD this

def boundArguments (links : List (Value × List Value)) (args : List Value) : List Value :=
  links.flatMap Prod.snd ++ args

theorem bound_receiver_more (links : List (Value × List Value)) (receiver this : Value) (args : List Value) :
    boundReceiver (links ++ [(receiver, args)]) this = boundReceiver links receiver := by
  cases links <;> rfl

theorem bound_arguments_more (links : List (Value × List Value)) (receiver : Value) (bound args : List Value) :
    boundArguments (links ++ [(receiver, bound)]) args = boundArguments links (bound ++ args) := by
  rw [boundArguments, boundArguments, List.flatMap_append, List.flatMap_singleton, List.append_assoc]

namespace Heap

/-- A function, and one that is bound to it through any number of others. -/
inductive Chained (h : Heap) (f : ObjectId) : ObjectId → List (Value × List Value) → Prop
  | none (function : (h.callable? f).isSome = true) : Chained h f f []
  | bind (g b : ObjectId) (links : List (Value × List Value)) (receiver : Value) (args : List Value)
      (inner : Chained h f g links) (bound : h.callable? b = some (.bound g receiver args)) :
      Chained h f b (links ++ [(receiver, args)])

variable (h k : Heap) (f b : ObjectId) (links : List (Value × List Value))

theorem chained_callable (chained : h.Chained f b links) :
    (h.callable? f).isSome = true ∧ (h.callable? b).isSome = true := by
  induction chained with
  | none function => exact ⟨function, function⟩
  | bind g b links receiver args inner bound hyp =>
    rw [bound]
    exact ⟨hyp.1, rfl⟩

theorem chained_known (chained : h.Chained f b links) : f < h.objects.size ∧ b < h.objects.size := by
  obtain ⟨first, last⟩ := h.chained_callable f b links chained
  obtain ⟨code, found⟩ := Option.isSome_iff_exists.mp first
  obtain ⟨code', found'⟩ := Option.isSome_iff_exists.mp last
  exact ⟨h.callable_known f code found, h.callable_known b code' found'⟩

theorem chained_kept (extends' : h.Extends k) (chained : h.Chained f b links) : k.Chained f b links := by
  induction chained with
  | none function =>
    obtain ⟨code, found⟩ := Option.isSome_iff_exists.mp function
    refine .none ?_
    rw [extends'.callable f (h.callable_known f code found)]
    exact function
  | bind g b links receiver args inner bound hyp =>
    refine .bind g b links receiver args hyp ?_
    rw [extends'.callable b (h.callable_known b _ bound)]
    exact bound

theorem chained_unbind (descends : h.Descends) (chained : h.Chained f b links) (this : Value) (args : List Value) :
    h.unbind b this args = h.unbind f (boundReceiver links this) (boundArguments links args) := by
  induction chained generalizing this args with
  | none function => rfl
  | bind g b links receiver bound inner found hyp =>
    rw [h.unbind_bound descends b this args g receiver bound found, hyp, bound_receiver_more, bound_arguments_more]

end Heap

/-! What is done with a function. -/

section

variable (m : Machine) (r : Realm) (f : ObjectId)

theorem call_enters (this : Value) (args : List Value) (function : (r.heap.callable? f).isSome = true) :
    call (.object f) this args m r = enter (.call f this args) m r := by
  rw [call, heap_at]
  dsimp only
  rw [if_pos function]

theorem construct_enters (args : List Value) (function : (r.heap.callable? f).isSome = true) :
    construct (.object f) args m r = enter (.construct f args) m r := by
  rw [construct, heap_at]
  dsimp only
  rw [if_pos function]

theorem in_context_ok {α : Type} (c : Context) (run : Run α) (a : α) (s : Realm)
    (ended : inContext c run m r = .ok a s) : ∃ s', run m (r.entering c) = .ok a s' ∧ s = leaveContext s' := by
  by_cases room : r.depth < r.config.depthLimit
  · rw [in_context_room m r c run room] at ended
    cases inner : run m (r.entering c) with
    | ok a' s' =>
      rw [inner] at ended
      cases ended
      exact ⟨s', rfl, rfl⟩
    | error e s' =>
      rw [inner] at ended
      cases ended
  · rw [in_context_full m r c run (Nat.not_lt.mp room)] at ended
    cases ended

theorem receiver_function_ok (method : String) (function : (r.heap.callable? f).isSome = true) :
    receiverFunction (.object f) method m r = .ok f r := by
  rw [receiverFunction, heap_at]
  have callable : r.heap.isCallable (.object f) = true := function
  rw [callable]
  rfl

end

-- Of provided functions only some make something with `new`, and of the host's none.
def Callable.constructs : Callable → Bool
  | .builtin f => f.signature.isConstructor
  | .host _ => false
  | _ => true

/-! One more link. -/

section

variable {host : HostFunction} {rounds d : Nat} {r s : Realm}

-- What `bind` returns is new, and the code that it has run redirects no link.
theorem new_bound_extends (hosted : host.Careful) (grounded : r.Grounded) (g : ObjectId) (has : r.extent.Has g)
    (receiver : Value) (args : List Value) (b : ObjectId)
    (ended : newBoundFunction g receiver args (machine host .resolved rounds d) r = .ok b s) :
    r.heap.Extends s.heap ∧ s.heap.callable? b = some (.bound g receiver args) := by
  obtain ⟨length, s₁, read, made⟩ := bind_ok _ _ _ _ _ _ ended
  obtain ⟨t, course, _⟩ := hosted_orderly host hosted rounds d (get g .length) Value.Within r
    (part_careful (get_tame g .length has)) grounded
  have chain := course_chain host rounds d false _ r t course
  rw [read] at chain
  have reads : r.heap.Extends s₁.heap := chain_extends _ _ t chain
  have new (o : Object) : (s₁.heap.addObject o).2.callable? s₁.heap.objects.size = o.kind.callable? := by
    rw [Heap.callable?, Heap.kind, Heap.object_add, if_pos rfl]
  cases made
  exact ⟨Heap.extends_trans _ _ _ reads (s₁.heap.extends_object _), new _⟩

-- A call of `bind` that returns makes a link.
theorem bind_call_extends (hosted : host.Careful) (grounded : r.Grounded) (method g : ObjectId)
    (code : r.heap.callable? method = some (.builtin (.function .bind))) (function : (r.heap.callable? g).isSome = true)
    (args : List Value) (v : Value)
    (ended : call (.object method) (.object g) args (machine host .resolved rounds d) r = .ok v s) :
    r.heap.Extends s.heap ∧
      ∃ b, v = .object b ∧ s.heap.callable? b = some (.bound g (argument args 0) args.tail) := by
  have alone : r.heap.unbind method (.object g) args = (method, .object g, args) := by
    rw [Heap.unbind, Heap.unbindFrom, code]
  rw [call_enters _ r method _ _ (by rw [code]; rfl)] at ended
  cases d with
  | zero => cases ended
  | succ d =>
    change dispatch host (.call method (.object g) args) (machine host .resolved rounds d) r = .ok v s at ended
    rw [dispatch, heap_at, alone] at ended
    dsimp only at ended
    rw [callUnbound, heap_at, code] at ended
    obtain ⟨s', inner, rfl⟩ := in_context_ok _ r _ _ v s ended
    have entered : (r.entering { function := some method }).Grounded :=
      grounded_entering _ grounded ⟨trivial, grounded.global, grounded.global⟩
    change FunctionFunction.run .bind (.object g) args _ _ = _ at inner
    obtain ⟨target, between, receiver, rest⟩ := bind_ok _ _ _ _ _ _ inner
    rw [receiver_function_ok _ (r.entering _) g "bind" function] at receiver
    cases receiver
    obtain ⟨b, after, made, given⟩ := bind_ok _ _ _ _ _ _ rest
    cases given
    obtain ⟨code', found⟩ := Option.isSome_iff_exists.mp function
    obtain ⟨grown, bound⟩ := new_bound_extends hosted entered g (r.heap.callable_known g code' found) _ _ b made
    rw [(leave_keeps _).1]
    exact ⟨grown, b, rfl, bound⟩

end

/-! Courses. -/

section

variable {host : HostFunction} {rounds d : Nat} {moves : Bool} {r : Realm} {t : List Moment}

theorem course_heap {α : Type} (f : Heap → Run α) (course : Course host rounds d moves (f r.heap) r t) :
    Course host rounds d moves (heap >>= f) r t := by
  exact .bind d moves _ _ r r r [] t (.get d moves r) rfl course

theorem call_course (f : ObjectId) (this : Value) (args : List Value) (function : (r.heap.callable? f).isSome = true)
    (course : Course host rounds d moves (enter (.call f this args)) r t) :
    Course host rounds d moves (call (.object f) this args) r t := by
  refine course_heap _ ?_
  dsimp only
  rw [if_pos function]
  exact course

theorem construct_course (f : ObjectId) (args : List Value) (function : (r.heap.callable? f).isSome = true)
    (course : Course host rounds d moves (enter (.construct f args)) r t) :
    Course host rounds d moves (construct (.object f) args) r t := by
  refine course_heap _ ?_
  dsimp only
  rw [if_pos function]
  exact course

-- Calls that end up in the same function have a course in common.
theorem calls_share_course (hosted : host.Careful) (grounded : r.Grounded) (f g : ObjectId) (this this' : Value)
    (args args' : List Value) (same : r.heap.unbind f this args = r.heap.unbind g this' args') (has : r.extent.Has f)
    (receiver : this.Within r.extent) (all : Values.Within r.extent args) :
    ∃ t, Course host rounds d moves (enter (.call f this args)) r t ∧
      Course host rounds d moves (enter (.call g this' args')) r t := by
  cases d with
  | zero => exact ⟨_, .bottom moves _ r, .bottom moves _ r⟩
  | succ d =>
    obtain ⟨has', receiver', all'⟩ := Heap.unbind_from_within r.heap grounded.heap (f + 1) f this args has receiver all
    obtain ⟨t, course, _⟩ := call_unbound_orderly (enter_orderly host hosted rounds d) hosted _ _ _
      grounded has' receiver' all'
    have course' := course
    rw [← Heap.unbind, same] at course'
    exact ⟨t, .enter d moves _ r t (course_heap _ course), .enter d moves _ r t (course_heap _ course')⟩

theorem constructs_share_course (hosted : host.Careful) (grounded : r.Grounded) (f g : ObjectId)
    (args args' : List Value) (same : (r.heap.unbind f .undefined args).1 = (r.heap.unbind g .undefined args').1)
    (same' : (r.heap.unbind f .undefined args).2.2 = (r.heap.unbind g .undefined args').2.2) (has : r.extent.Has f)
    (all : Values.Within r.extent args) :
    ∃ t, Course host rounds d moves (enter (.construct f args)) r t ∧
      Course host rounds d moves (enter (.construct g args')) r t := by
  cases d with
  | zero => exact ⟨_, .bottom moves _ r, .bottom moves _ r⟩
  | succ d =>
    obtain ⟨has', _, all'⟩ := Heap.unbind_from_within r.heap grounded.heap (f + 1) f .undefined args has trivial all
    obtain ⟨t, course, _⟩ := construct_unbound_orderly (enter_orderly host hosted rounds d) _ _
      grounded has' all'
    have course' := course
    rw [← Heap.unbind, same, same'] at course'
    exact ⟨t, .enter d moves _ r t (course_heap _ course), .enter d moves _ r t (course_heap _ course')⟩

end

/-! Chains of bound functions. -/

/-- What holds in a realm of a chain of functions, the last of them `b`, that are bound to `f`. -/
structure Realm.Composes (host : HostFunction) (r : Realm) (f b : ObjectId) (links : List (Value × List Value)) :
    Prop where
  /-- Another call of `bind` makes the chain longer. -/
  bind : ∀ rounds d (method : ObjectId) (args : List Value) (v : Value) (s : Realm),
    r.heap.callable? method = some (.builtin (.function .bind)) →
    Ecma.call (.object method) (.object b) args (machine host .resolved rounds d) r = .ok v s →
    ∃ c, v = .object c ∧ s.heap.Chained f c (links ++ [(argument args 0, args.tail)])
  call : ∀ lookup rounds d (this : Value) (args : List Value),
    Ecma.call (.object b) this args (machine host lookup rounds d) r =
      Ecma.call (.object f) (boundReceiver links this) (boundArguments links args) (machine host lookup rounds d) r
  construct : ∀ lookup rounds d (args : List Value),
    Ecma.construct (.object b) args (machine host lookup rounds d) r =
      Ecma.construct (.object f) (boundArguments links args) (machine host lookup rounds d) r
  refuses : ∀ code, r.heap.callable? f = some code → code.constructs = false →
    ∀ lookup rounds d (args : List Value), Ecma.construct (.object b) args (machine host lookup rounds (d + 1)) r =
      .error (.thrown (.object r.heap.objects.size)) (r.withError .typeError "function is not a constructor")
  instanceOf : ∀ lookup rounds d (v : Value),
    Ecma.instanceOf v (.object b) (machine host lookup rounds d) r =
      Ecma.instanceOf v (.object f) (machine host lookup rounds d) r
  /-- The same moments make up both calls, among them each context that is entered. -/
  callMoments : ∀ rounds d moves (this : Value) (args : List Value), this.Within r.extent →
    Values.Within r.extent args → ∃ t, Course host rounds d moves (Ecma.call (.object b) this args) r t ∧
      Course host rounds d moves (Ecma.call (.object f) (boundReceiver links this) (boundArguments links args)) r t
  constructMoments : ∀ rounds d moves (args : List Value), Values.Within r.extent args →
    ∃ t, Course host rounds d moves (Ecma.construct (.object b) args) r t ∧
      Course host rounds d moves (Ecma.construct (.object f) (boundArguments links args)) r t

section

variable {host : HostFunction} (r : Realm) {f b : ObjectId} {links : List (Value × List Value)}

theorem chained_call (descends : r.heap.Descends) (chained : r.heap.Chained f b links) (lookup : Lookup)
    (rounds d : Nat) (this : Value) (args : List Value) :
    call (.object b) this args (machine host lookup rounds d) r =
      call (.object f) (boundReceiver links this) (boundArguments links args) (machine host lookup rounds d) r := by
  obtain ⟨first, last⟩ := Heap.chained_callable _ _ _ _ chained
  rw [call_enters _ r b _ _ last, call_enters _ r f _ _ first]
  cases d with
  | zero => rfl
  | succ d =>
    exact Heap.call_unbinds host (machine host lookup rounds d) r _ _ _ _ _ _
      (Heap.chained_unbind _ _ _ _ descends chained this args)

theorem chained_end (descends : r.heap.Descends) (chained : r.heap.Chained f b links) (args : List Value) :
    (r.heap.unbind b .undefined args).1 = (r.heap.unbind f .undefined (boundArguments links args)).1 ∧
    (r.heap.unbind b .undefined args).2.2 = (r.heap.unbind f .undefined (boundArguments links args)).2.2 := by
  rw [Heap.chained_unbind _ _ _ _ descends chained]
  exact ⟨Heap.unbind_from_end _ _ _ _ _ _ _, Heap.unbind_from_args _ _ _ _ _ _⟩

theorem chained_construct (descends : r.heap.Descends) (chained : r.heap.Chained f b links) (lookup : Lookup)
    (rounds d : Nat) (args : List Value) :
    construct (.object b) args (machine host lookup rounds d) r =
      construct (.object f) (boundArguments links args) (machine host lookup rounds d) r := by
  obtain ⟨first, last⟩ := Heap.chained_callable _ _ _ _ chained
  rw [construct_enters _ r b _ last, construct_enters _ r f _ first]
  cases d with
  | zero => rfl
  | succ d =>
    obtain ⟨same, same'⟩ := chained_end r descends chained args
    exact Heap.construct_unbinds host (machine host lookup rounds d) r _ _ _ _ same same'

theorem construct_refuses (code : Callable) (found : r.heap.callable? f = some code) (refuses : code.constructs = false)
    (lookup : Lookup) (rounds d : Nat) (args : List Value) :
    construct (.object f) args (machine host lookup rounds (d + 1)) r =
      .error (.thrown (.object r.heap.objects.size)) (r.withError .typeError "function is not a constructor") := by
  rw [construct_enters _ r f _ (by rw [found]; rfl)]
  change dispatch host (.construct f args) (machine host lookup rounds d) r = _
  have alone : r.heap.unbind f .undefined args = (f, .undefined, args) := by
    rw [Heap.unbind, Heap.unbindFrom, found]
    cases code with
    | bound g v a => cases refuses
    | _ => rfl
  rw [dispatch, heap_at, alone]
  dsimp only
  rw [constructUnbound, heap_at, found]
  cases code with
  | builtin b =>
    have refused : ¬ b.signature.isConstructor = true := by
      rw [Bool.not_eq_true]
      exact refuses
    dsimp only
    rw [if_neg refused]
    exact throw_at _ r .typeError _
  | host name => exact throw_at _ r .typeError _
  | _ => cases refuses

theorem chained_instance_of (descends : r.heap.Descends) (chained : r.heap.Chained f b links) (v : Value)
    (m : Machine) : instanceOf v (.object b) m r = instanceOf v (.object f) m r := by
  obtain ⟨first, last⟩ := Heap.chained_callable _ _ _ _ chained
  have first' : r.heap.isCallable (.object f) = true := first
  have last' : r.heap.isCallable (.object b) = true := last
  rw [instanceOf, instanceOf, heap_at, heap_at, if_pos first', if_pos last']
  refine Heap.has_instance_unbinds m r b f v ?_
  rw [Heap.chained_unbind _ _ _ _ descends chained]
  exact Heap.unbind_from_end _ _ _ _ _ _ _

theorem grounded_composes (hosted : host.Careful) (grounded : r.Grounded) (chained : r.heap.Chained f b links) :
    r.Composes host f b links := by
  have descends := Heap.grounded_descends r.heap grounded.heap
  obtain ⟨first, last⟩ := Heap.chained_callable _ _ _ _ chained
  have has : r.extent.Has b := (Heap.chained_known _ _ _ _ chained).2
  refine ⟨fun rounds d method args v s code ended => ?_, chained_call r descends chained,
    chained_construct r descends chained, fun code found refuses lookup rounds d args => ?_,
    fun lookup rounds d v => chained_instance_of r descends chained v _,
    fun rounds d moves this args receiver all => ?_, fun rounds d moves args all => ?_⟩
  · obtain ⟨grown, c, rfl, bound⟩ := bind_call_extends hosted grounded method b code last args v ended
    exact ⟨c, rfl, .bind b c links _ _ (Heap.chained_kept _ _ _ _ _ grown chained) bound⟩
  · rw [chained_construct r descends chained]
    exact construct_refuses r code found refuses lookup rounds d _
  · obtain ⟨t, course, course'⟩ := calls_share_course hosted grounded _ _ _ _
      _ _ (Heap.chained_unbind _ _ _ _ descends chained this args) has receiver all
    exact ⟨t, call_course b _ _ last course, call_course f _ _ first course'⟩
  · obtain ⟨same, same'⟩ := chained_end r descends chained args
    obtain ⟨t, course, course'⟩ := constructs_share_course hosted grounded _ _
      _ _ same same' has all
    exact ⟨t, construct_course b _ last course, construct_course f _ first course'⟩

end

-- However a host uses a realm, so it is at each moment and when the host is done.
theorem bound_functions_compose (host : HostFunction) (hosted : host.Careful) (config : Config) (uses : List Use)
    (known : KnownUses host (Realm.create config) uses) :
    ∃ t, Visits host (Realm.create config) t (uses.foldl (fun r use => use.after host r) (Realm.create config)) ∧
      ∀ f b links,
        (∀ m ∈ t,
          (m.before.heap.Chained f b links → m.before.Composes host f b links ∧ m.after.heap.Chained f b links) ∧
          (m.after.heap.Chained f b links → m.after.Composes host f b links)) ∧
        ((uses.foldl (fun r use => use.after host r) (Realm.create config)).heap.Chained f b links →
          (uses.foldl (fun r use => use.after host r) (Realm.create config)).Composes host f b links) := by
  obtain ⟨grounded, t, visits, _, each⟩ :=
    tended_uses host hosted uses (Realm.create config) (create_grounded config) known
  refine ⟨t, visits, fun f b links => ⟨fun m member => ⟨fun chained => ?_, ?_⟩, grounded_composes _ hosted grounded⟩⟩
  · have lawful := visits_lawful host _ _ t visits m member
    exact ⟨grounded_composes _ hosted (each m member).before chained,
      Heap.chained_kept _ _ _ _ _ (lawful_extends m lawful) chained⟩
  · exact grounded_composes _ hosted (each m member).after

theorem bound_functions_compose_handler :
    callingHost.Careful ∧ KnownUses callingHost (Realm.create {}) handlerUses ∧
    ∃ t, Visits callingHost (Realm.create {}) t
        (handlerUses.foldl (fun r use => use.after callingHost r) (Realm.create {})) ∧
      ∀ f b links,
        (∀ m ∈ t,
          (m.before.heap.Chained f b links → m.before.Composes callingHost f b links ∧ m.after.heap.Chained f b links) ∧
          (m.after.heap.Chained f b links → m.after.Composes callingHost f b links)) ∧
        ((handlerUses.foldl (fun r use => use.after callingHost r) (Realm.create {})).heap.Chained f b links →
          (handlerUses.foldl (fun r use => use.after callingHost r) (Realm.create {})).Composes callingHost f b links) := by
  exact ⟨calling_host_careful, handler_uses_known,
    bound_functions_compose callingHost calling_host_careful {} handlerUses handler_uses_known⟩

end Ecma
