import Ecma.Proofs.Eval.Grounded
import Ecma.Proofs.Heap.Founded
import Ecma.Proofs.Realm.Lock

set_option autoImplicit false

/-!
Realms are grounded from the beginning, and stay so in whatever way the host uses them, as long as it makes up
no objects.
-/

namespace Ecma

open Ecma.Program Run

/-! A fresh realm. -/

namespace Setup

-- A name of a property that is no index.
def Named (name : String) : Prop :=
  ∃ s, PropertyKey.ofString name = .name s

-- What is set up leaves a grounded heap grounded, and gives what is expected.
def Grounds {α : Type} (w : Extent) (x : Setup α) (gives : Fact α) : Prop :=
  ∀ h : Heap, h.Grounded → w.Upto h.extent →
    (x.run h).2.Grounded ∧ h.extent.Upto (x.run h).2.extent ∧ gives (x.run h).2.extent (x.run h).1

section

variable {α β : Type} {w : Extent}

theorem grounds_bind (x : Setup α) (f : α → Setup β) (middle : Fact α) (gives : Fact β) (first : Grounds w x middle)
    (second : ∀ a w', w.Upto w' → middle w' a → Grounds w' (f a) gives) : Grounds w (x >>= f) gives := by
  intro h grounded upto
  obtain ⟨grounded', upto', given⟩ := first h grounded upto
  obtain ⟨grounded'', upto'', given'⟩ := second _ _ (upto.trans upto') given (x.run h).2 grounded' (.refl _)
  exact ⟨grounded'', upto'.trans upto'', given'⟩

theorem grounds_then (x : Setup Unit) (y : Setup β) (gives : Fact β) (first : Grounds w x Anything)
    (second : ∀ w', w.Upto w' → Grounds w' y gives) : Grounds w (x >>= fun _ => y) gives := by
  exact grounds_bind _ _ Anything gives first fun _ w' upto _ => second w' upto

theorem grounds_for (items : List α) (f : α → Setup Unit)
    (each : ∀ a ∈ items, ∀ w', w.Upto w' → Grounds w' (f a) Anything) : Grounds w (items.forM f) Anything := by
  induction items generalizing w with
  | nil => exact fun h grounded _ => ⟨grounded, .refl _, trivial⟩
  | cons a rest hyp =>
    refine grounds_then _ _ _ (each a List.mem_cons_self w (.refl w)) fun w' upto => hyp fun b member w'' upto' => ?_
    exact each b (List.mem_cons_of_mem a member) w'' (upto.trans upto')

theorem grounds_define (holder : ObjectId) (name : String) (d : Descriptor) (named : Named name)
    (held : d.All (Value.Within w)) : Grounds w (define holder name d) Anything := by
  intro h grounded upto
  obtain ⟨s, is⟩ := named
  have shift : Heap.Shift (Value.Within h.extent) h (h.store holder (.ofString name) d) :=
    .store h holder _ d (Descriptor.all_imp d (fun v within => within.more upto) held) (.inr ⟨s, is⟩)
  have extent : (h.store holder (.ofString name) d).extent = h.extent :=
    congrArg (fun size => (⟨size, h.environments.size⟩ : Extent)) (Heap.size_modify h holder _)
  refine ⟨(Heap.orderly_shift h grounded _ shift).grounded, ?_, trivial⟩
  change h.extent.Upto (h.store holder (.ofString name) d).extent
  rw [extent]
  exact .refl _

-- An object of the engine with one or no named property.
theorem grounds_new (o : Object) (link : ObjectId) (prototype : o.prototype = some link) (first : link ≤ 16)
    (callable : ∀ f, o.kind.callable? = some f → f.Within w)
    (table : o.properties.All (Value.Within w)) (tidy : o.Tidy) :
    Grounds w (modifyGet fun h => h.addObject o) Extent.Has := by
  intro h grounded upto
  have admits : Heap.Admits h.extent o := by
    refine ⟨fun link' same => ?_, fun f same => (callable f same).more upto,
      Heap.table_imp (fun v held => held.more upto) _ table, tidy⟩
    cases prototype.symm.trans same
    exact Nat.lt_of_le_of_lt first grounded.intrinsics
  refine ⟨(Heap.orderly_object h grounded o admits).grounded, Heap.object_upto h o, ?_⟩
  change h.objects.size < (h.objects.push o).size
  rw [Array.size_push]
  exact Nat.lt_succ_self _

theorem grounds_add (f : Builtin) : Grounds w (add f) Extent.Has := by
  refine grounds_new _ Intrinsic.functionPrototype rfl (by decide) (fun g same => ?_) ?_ ⟨List.nodup_singleton _, nofun⟩
  · cases same
    trivial
  · exact PropertyTable.all_of_names _ (names_single _ _ ((Descriptor.all_data _ _ _ _).mpr trivial))

-- The name of a provided function is none of an element.
theorem signature_named (f : Builtin) : Named f.signature.name := by
  rcases f with f | f | f | f | f | f | f | f | f
  case error =>
    cases f with
    | native kind => cases kind <;> exact ⟨_, rfl⟩
    | _ => exact ⟨_, rfl⟩
  all_goals cases f <;> exact ⟨_, rfl⟩

theorem grounds_method (holder : ObjectId) (f : Builtin) : Grounds w (method holder f) Anything := by
  refine grounds_bind _ _ _ _ (grounds_add f) fun id w' _ has => ?_
  exact grounds_define _ _ _ (signature_named f) ((Descriptor.all_data _ _ _ _).mpr has)

theorem grounds_global (name : String) (id : ObjectId) (named : Named name) (has : w.Has id) :
    Grounds w (bindGlobal name id) Anything := by
  exact grounds_define _ _ _ named ((Descriptor.all_data _ _ _ _).mpr has)

-- What every grounded heap has.
theorem grounds_here (x : Setup α) (gives : Fact α)
    (each : ∀ w', w.Upto w' → (∀ id ≤ 16, w'.Has id) → Grounds w' x gives) : Grounds w x gives := by
  intro h grounded upto
  exact each h.extent upto (fun id first => Nat.lt_of_le_of_lt first grounded.intrinsics) h grounded (.refl _)

theorem grounds_constructor (f : Builtin) (prototype : ObjectId) (statics : List Builtin)
    (values : List (String × Value)) (methods : List Builtin) (first : prototype ≤ 16)
    (named : ∀ entry ∈ values, Named entry.1 ∧ entry.2.isObject = false) :
    Grounds w (constructor f prototype statics values methods) Anything := by
  refine grounds_here _ _ fun w₀ _ intrinsic => ?_
  refine grounds_bind _ _ _ _ (grounds_add f) fun id w₁ upto₁ has => ?_
  refine grounds_then _ _ _ (grounds_for _ _ fun _ _ _ _ => grounds_method _ _) fun w₂ upto₂ => ?_
  refine grounds_then _ _ _ (grounds_for _ _ fun entry member _ _ => ?_) fun w₃ upto₃ => ?_
  · exact grounds_define _ _ _ (named entry member).1
      ((Descriptor.all_data _ _ _ _).mpr (within_primitive _ _ (named entry member).2))
  have more := (upto₁.trans upto₂).trans upto₃
  refine grounds_then _ _ _ (grounds_define _ _ _ ⟨_, rfl⟩ ?_) fun w₄ upto₄ => ?_
  · exact (Descriptor.all_data _ _ _ _).mpr ((intrinsic prototype first).more more)
  have has : w₄.Has id := Extent.Has.more has ((upto₂.trans upto₃).trans upto₄)
  refine grounds_then _ _ _ (grounds_define _ _ _ ⟨_, rfl⟩ ((Descriptor.all_data _ _ _ _).mpr has)) fun w₅ upto₅ => ?_
  refine grounds_then _ _ _ (grounds_for _ _ fun _ _ _ _ => grounds_method _ _) fun w₆ upto₆ => ?_
  exact grounds_global _ id (signature_named f) (has.more (upto₅.trans upto₆))

theorem grounds_error_constructor (id prototype : ObjectId) (name : String) (named : Named name) (has : w.Has id)
    (first : w.Has prototype) : Grounds w (errorConstructor id prototype name) Anything := by
  have hold (v : ObjectId) (w' : Extent) (upto : w.Upto w') (has : w.Has v) (x e c : Bool) :
      (Descriptor.data (.object v) x e c).All (Value.Within w') := (Descriptor.all_data _ _ _ _).mpr (has.more upto)
  refine grounds_then _ _ _ (grounds_define _ _ _ ⟨_, rfl⟩ (hold prototype w (.refl w) first _ _ _)) fun w₁ upto₁ => ?_
  refine grounds_then _ _ _ (grounds_define _ _ _ ⟨_, rfl⟩ (hold id w₁ upto₁ has _ _ _)) fun w₂ upto₂ => ?_
  refine grounds_then _ _ _ (grounds_define _ _ _ ⟨_, rfl⟩ ((Descriptor.all_data _ _ _ _).mpr trivial)) fun w₃ upto₃ => ?_
  refine grounds_then _ _ _ (grounds_define _ _ _ ⟨_, rfl⟩ ((Descriptor.all_data _ _ _ _).mpr trivial)) fun w₄ upto₄ => ?_
  exact grounds_global _ id named (has.more (((upto₁.trans upto₂).trans upto₃).trans upto₄))

theorem grounds_globals : Grounds w globals Anything := by
  refine grounds_then _ _ _ (grounds_define _ _ _ ⟨_, rfl⟩ ((Descriptor.all_data _ _ _ _).mpr trivial)) fun _ _ => ?_
  refine grounds_then _ _ _ (grounds_define _ _ _ ⟨_, rfl⟩ ((Descriptor.all_data _ _ _ _).mpr trivial)) fun _ _ => ?_
  refine grounds_then _ _ _ (grounds_define _ _ _ ⟨_, rfl⟩ ((Descriptor.all_data _ _ _ _).mpr trivial)) fun _ _ => ?_
  refine grounds_here _ _ fun w' _ intrinsic => ?_
  refine grounds_then _ _ _ (grounds_define _ _ _ ⟨_, rfl⟩ ?_) fun w'' upto => ?_
  · exact (Descriptor.all_data _ _ _ _).mpr (intrinsic _ (by decide))
  refine grounds_then _ _ _ (grounds_global _ _ ⟨_, rfl⟩ ((intrinsic _ (by decide)).more upto)) fun _ _ => ?_
  exact grounds_for _ _ fun _ _ _ _ => grounds_method _ _

theorem grounds_numbers : Grounds w numbers Anything := by
  refine grounds_then _ _ _ (grounds_constructor _ _ _ _ _ (by decide) fun entry member => ?_) fun _ _ => ?_
  · obtain ⟨value, there, rfl⟩ := List.mem_map.mp member
    simp only [List.mem_cons, List.not_mem_nil, or_false] at there
    rcases there with rfl | rfl | rfl | rfl | rfl <;> exact ⟨⟨_, rfl⟩, rfl⟩
  · exact grounds_constructor _ _ _ _ _ (by decide) nofun

theorem grounds_errors (traceLimit : Nat) : Grounds w (errors traceLimit) Anything := by
  refine grounds_here _ _ fun w₀ _ intrinsic => ?_
  refine grounds_then _ _ _ (grounds_error_constructor _ _ _ ⟨_, rfl⟩ (intrinsic _ (by decide)) (intrinsic _ (by decide)))
    fun w₁ upto₁ => ?_
  refine grounds_then _ _ _ (grounds_define _ _ _ ⟨_, rfl⟩ ((Descriptor.all_data _ _ _ _).mpr trivial)) fun w₂ upto₂ => ?_
  refine grounds_then _ _ _ (grounds_method _ _) fun w₃ upto₃ => ?_
  refine grounds_bind _ _ _ _ (grounds_add _) fun stack w₄ upto₄ has => ?_
  refine grounds_then _ _ _ (grounds_define _ _ _ ⟨_, rfl⟩ ?_) fun w₅ upto₅ => ?_
  · refine (Descriptor.all_accessor _ _ _ _).mpr ⟨fun f same => ?_, nofun⟩
    cases same
    exact has
  have more := ((upto₁.trans upto₂).trans upto₃).trans (upto₄.trans upto₅)
  refine grounds_for _ _ fun kind _ w₆ upto₆ => ?_
  refine grounds_bind _ _ _ _ (grounds_add _) fun id w₇ upto₇ has => ?_
  refine grounds_error_constructor _ _ _ (by cases kind <;> exact ⟨_, rfl⟩) has ?_
  exact (intrinsic _ (by cases kind <;> decide)).more (more.trans (upto₆.trans upto₇))

theorem grounds_console : Grounds w console Anything := by
  have made : Grounds w (modifyGet fun h => h.addObject { prototype := some Intrinsic.objectPrototype }) Extent.Has :=
    grounds_new _ _ rfl (by decide) nofun (PropertyTable.all_of_names [] nofun) ⟨List.nodup_nil, nofun⟩
  refine grounds_bind _ _ _ _ made fun id w₁ _ has => ?_
  refine grounds_then _ _ _ (grounds_method _ _) fun w₂ upto₂ => ?_
  refine grounds_then _ _ _ (grounds_method _ _) fun w₃ upto₃ => ?_
  exact grounds_global _ id ⟨_, rfl⟩ (Extent.Has.more has (upto₂.trans upto₃))

theorem grounds_all (traceLimit : Nat) : Grounds w (all traceLimit) Anything := by
  refine grounds_then _ _ _ grounds_globals fun _ _ => ?_
  refine grounds_then _ _ _ (grounds_constructor _ _ _ _ _ (by decide) nofun) fun _ _ => ?_
  refine grounds_then _ _ _ (grounds_constructor _ _ _ _ _ (by decide) nofun) fun _ _ => ?_
  refine grounds_then _ _ _ (grounds_constructor _ _ _ _ _ (by decide) nofun) fun _ _ => ?_
  refine grounds_then _ _ _ (grounds_constructor _ _ _ _ _ (by decide) nofun) fun _ _ => ?_
  refine grounds_then _ _ _ grounds_numbers fun _ _ => ?_
  exact grounds_then _ _ _ (grounds_errors _) fun _ _ => grounds_console

end

end Setup

-- An intrinsic object is provided code or none, and has properties of primitive values only.
structure Object.Basic (o : Object) (id : ObjectId) : Prop where
  prototype : ∀ link, o.prototype = some link → link < id
  callable : ∀ f, o.kind.callable? = some f → ∃ b, f = .builtin b
  table : ∀ w : Extent, o.properties.All (Value.Within w)
  tidy : o.Tidy

theorem plain_basic (id : ObjectId) (o : Object) (prototype : ∀ link, o.prototype = some link → link < id)
    (callable : ∀ f, o.kind.callable? = some f → ∃ b, f = .builtin b) (bare : o.properties = .ofNames []) :
    o.Basic id := by
  refine ⟨prototype, callable, fun w => ?_, ?_, fun s i _ _ => ?_⟩
  · rw [bare]
    exact PropertyTable.all_of_names [] nofun
  · rw [bare]
    exact List.nodup_nil
  · rw [bare]
    exact Std.TreeMap.getElem?_emptyc

theorem single_basic (id : ObjectId) (o : Object) (prototype : ∀ link, o.prototype = some link → link < id)
    (callable : ∀ f, o.kind.callable? = some f → ∃ b, f = .builtin b) (name : String) (v : Value) (x e c : Bool)
    (primitive : v.isObject = false) (single : o.properties = .ofNames [(name, .data v x e c)]) : o.Basic id := by
  refine ⟨prototype, callable, fun w => ?_, ?_, fun s i _ _ => ?_⟩
  · rw [single]
    exact PropertyTable.all_of_names _ (names_single _ _
      ((Descriptor.all_data v x e c).mpr (within_primitive w v primitive)))
  · rw [single]
    exact List.nodup_singleton name
  · rw [single]
    exact Std.TreeMap.getElem?_emptyc

theorem intrinsic_basic (id : ObjectId) : (intrinsicHeap.object id).Basic id := by
  by_cases known : id < 17
  · have link (a b : ObjectId) (less : a < b) : ∀ link, some a = some link → link < b := by
      intro link same
      cases same
      exact less
    have code (f : Builtin) : ∀ g, some (Callable.builtin f) = some g → ∃ b, g = .builtin b := by
      intro g same
      cases same
      exact ⟨f, rfl⟩
    interval_cases id
    case «0» => exact plain_basic _ _ nofun nofun rfl
    case «1» => exact single_basic _ _ (link _ _ (by decide)) (code _) _ _ _ _ _ rfl rfl
    case «2» => exact single_basic _ _ (link _ _ (by decide)) nofun _ _ _ _ _ rfl rfl
    case «3» => exact single_basic _ _ (link _ _ (by decide)) nofun _ _ _ _ _ rfl rfl
    case «13» => exact single_basic _ _ (link _ _ (by decide)) (code _) _ _ _ _ _ rfl rfl
    case «14» => exact single_basic _ _ (link _ _ (by decide)) (code _) _ _ _ _ _ rfl rfl
    case «15» => exact single_basic _ _ (link _ _ (by decide)) (code _) _ _ _ _ _ rfl rfl
    all_goals exact plain_basic _ _ (link _ _ (by decide)) nofun rfl
  · have unknown : ¬ id < intrinsicHeap.objects.size := known
    rw [Heap.object_unknown _ id unknown]
    exact plain_basic _ _ nofun nofun rfl

theorem intrinsic_environment (env : EnvironmentId) : (intrinsicHeap.environment env).outer = none ∧
    ((intrinsicHeap.environment env).record = .object Intrinsic.global false ∨
      (intrinsicHeap.environment env).record = .declarative []) := by
  cases env with
  | zero => exact ⟨rfl, .inl rfl⟩
  | succ env =>
    have unknown : intrinsicHeap.environment (env + 1) = default := by
      rw [Heap.environment, Array.getElem?_eq_none (Nat.le_add_left 1 env)]
      rfl
    rw [unknown]
    exact ⟨rfl, .inr rfl⟩

theorem intrinsic_grounded : intrinsicHeap.Grounded := by
  have code (id : ObjectId) (f : Callable) (found : intrinsicHeap.callable? id = some f) : ∃ b, f = .builtin b :=
    (intrinsic_basic id).callable f found
  refine ⟨⟨fun id => (intrinsic_basic id).table _, fun id f found => ?_, fun frame slots found v member => ?_,
    fun env b found entry member => ?_, fun env id receiver found => ?_⟩, fun id routine scope found => ?_,
    fun id => (intrinsic_basic id).prototype, fun id target receiver args found => ?_, fun env link found => ?_,
    fun id => (intrinsic_basic id).tidy, by decide, by decide⟩
  · obtain ⟨b, rfl⟩ := code id f found
    trivial
  · obtain ⟨less, is⟩ := Array.getElem?_eq_some_iff.mp found
    rw [← is] at member
    exact absurd member (by simp [intrinsicHeap])
  · rw [Heap.bindings?] at found
    rcases (intrinsic_environment env).2 with is | is
    · rw [is] at found
      cases found
    · rw [is] at found
      cases found
      exact absurd member List.not_mem_nil
  · rcases (intrinsic_environment env).2 with is | is
    · cases is.symm.trans found
      exact (by decide : (16 : Nat) < intrinsicHeap.objects.size)
    · cases is.symm.trans found
  · obtain ⟨b, is⟩ := code id _ found
    cases is
  · obtain ⟨b, is⟩ := code id _ found
    cases is
  · cases (intrinsic_environment env).1.symm.trans found

theorem heap_grounded (h : Heap) (config : Config) (grounded : h.Grounded) :
    Realm.Grounded { heap := h, config := config } := by
  exact ⟨grounded, default_within _ grounded.global, fun c member => absurd member List.not_mem_nil,
    fun entry member => absurd member List.not_mem_nil⟩

-- A fresh realm.
theorem create_grounded (config : Config) : (Realm.create config).Grounded := by
  have set := Setup.grounds_all config.traceLimit intrinsicHeap intrinsic_grounded (.refl _)
  delta Realm.create
  exact heap_grounded _ config set.1

/-! What the host does with a realm. -/

-- The host only hands in what there is in the realm.
def Use.Known (r : Realm) : Use → Prop
  | .call f this args => f.Within r.extent ∧ this.Within r.extent ∧ Values.Within r.extent args
  | .handler _ args => Values.Within r.extent args
  | .display v => v.Within r.extent
  | _ => True

def KnownUses (host : HostFunction) : Realm → List Use → Prop
  | _, [] => True
  | r, use :: rest => use.Known r ∧ KnownUses host (use.after host r) rest

-- A visit through grounded realms, after which as many contexts wait as before.
def Tended (host : HostFunction) (r s : Realm) : Prop :=
  s.Grounded ∧ ∃ t, Visits host r t s ∧ s.depth = r.depth ∧ ∀ m ∈ t, m.Orderly

theorem display_run_tame {w : Region} {moves : Bool} (v : Value) (held : v.In w) :
    Tame w moves (Realm.displayRun v) Vague := by
  cases v with
  | object id =>
    refine tame_heap _ _ fun h k w' upto alike => ?_
    have held := upto.object id held
    rw [Heap.kind_alike h k alike id held]
    refine ⟨rfl, ?_⟩
    split
    · exact error_summary_tame id held
    · exact to_text_tame _ held
  | _ => exact to_text_tame _ trivial

section

variable (host : HostFunction)

theorem tended_beside (r s : Realm) (grounded : s.Grounded) (same : s.heap = r.heap) (depth : s.depth = r.depth) :
    Tended host r s := by
  exact ⟨grounded, [], visits_beside host r s same, depth, orderly_nil⟩

theorem tended_trans (r s s' : Realm) (first : Tended host r s) (second : Tended host s s') : Tended host r s' := by
  obtain ⟨_, t, visits, depth, each⟩ := first
  obtain ⟨grounded, t', visits', depth', each'⟩ := second
  exact ⟨grounded, t ++ t', visits_append host r s s' t t' visits visits', depth'.trans depth,
    orderly_append t t' each each'⟩

theorem tended_unwind (r s : Realm) (tended : Tended host r s) : unwindTo r.depth s = s := by
  obtain ⟨_, _, _, depth, _⟩ := tended
  rw [unwindTo, depth, Nat.sub_self]
  rfl

theorem grounded_reset (r : Realm) (grounded : r.Grounded) : r.resetSteps.Grounded := by
  exact ⟨grounded.heap, grounded.running, grounded.waiting, grounded.handlers⟩


variable (hosted : host.Careful)
include hosted

theorem tended_run {α : Type} (x : Run α) (gives : Fact α) (r : Realm) (grounded : r.Grounded)
    (careful : Careful r.extent false x gives) : Tended host r (endOf (x.on host r)) ∧ Settled gives (x.on host r) := by
  obtain ⟨t, course, each, settled⟩ :=
    hosted_orderly host hosted boundless boundless x gives r careful grounded
  have visits := Visits.run x r _ t [] course (.nil _)
  rw [List.append_nil] at visits
  exact ⟨⟨settled_grounded gives _ settled, t, visits, course_depth x t course, each⟩, settled⟩

theorem tended_display (v : Value) (r : Realm) (grounded : r.Grounded) (held : v.Within r.extent) :
    Tended host r (Realm.display host v r).2 := by
  obtain ⟨tended, _⟩ :=
    tended_run host hosted _ Anything r grounded (part_careful (display_run_tame v held))
  rw [Realm.display]
  cases ended : (Realm.displayRun v).on host r with
  | ok text s =>
    rw [ended] at tended
    exact tended
  | error e s =>
    rw [ended] at tended
    dsimp only
    rw [tended_unwind host r s tended]
    exact tended

theorem tended_finish (x : Run Value) (r : Realm) (grounded : r.Grounded)
    (careful : Careful r.extent false x Value.Within) :
    Tended host r (Realm.finish host r.depth .resolved (x.on host r)).2 := by
  obtain ⟨tended, settled⟩ := tended_run host hosted x Value.Within r grounded careful
  cases ended : x.on host r with
  | ok v s =>
    rw [ended] at tended
    exact tended
  | error e s =>
    rw [ended] at tended settled
    have same : unwindTo r.depth s = s := tended_unwind host r s tended
    have back : Tended host r (unwindTo r.depth s) := same.symm ▸ tended
    cases e with
    | thrown v =>
      refine tended_trans host r _ _ back (tended_display host hosted v (unwindTo r.depth s) back.1 ?_)
      rw [same]
      exact settled.2
    | _ => exact back

theorem tended_call (f this : Value) (args : List Value) (r : Realm) (grounded : r.Grounded)
    (callee : f.Within r.extent) (receiver : this.Within r.extent) (all : Values.Within r.extent args) :
    Tended host r (r.callFunction host f this args).2 := by
  have reset := grounded_reset r grounded
  exact tended_trans host r r.resetSteps _ (tended_beside host r _ reset rfl rfl)
    (tended_finish host hosted _ r.resetSteps reset (part_careful (call_tame f this args callee receiver all)))

theorem tended_use (use : Use) (r : Realm) (grounded : r.Grounded) (known : use.Known r) :
    Tended host r (use.after host r) := by
  cases use with
  | evaluate text filename =>
    change Tended host r (r.evaluateProgram host text filename).2
    delta Realm.evaluateProgram
    split
    · exact tended_beside host r r grounded rfl rfl
    · next parsed _ =>
      have reset := grounded_reset r grounded
      refine tended_trans host r r.resetSteps _ (tended_beside host r _ reset rfl rfl)
        (tended_finish host hosted _ r.resetSteps reset (.enter _ ?_))
      exact ⟨compile_plain parsed, grounded.heap.global, grounded.heap.global, grounded.intrinsic _ (by decide)⟩
  | call f this args =>
    obtain ⟨callee, receiver, all⟩ := known
    exact tended_call host hosted f this args r grounded callee receiver all
  | handler name args =>
    change Tended host r (r.callHandler host name args).2
    rw [Realm.callHandler]
    split
    · next handler found =>
      split
      · have callee := Dictionary.all_find _ _ grounded.handlers name handler found
        exact tended_call host hosted handler _ args r grounded callee trivial known
      · exact tended_beside host r r grounded rfl rfl
    · exact tended_beside host r r grounded rfl rfl
  | global name =>
    exact tended_finish host hosted _ r grounded (part_careful (get_tame _ _ (grounded.intrinsic _ (by decide))))
  | display v => exact tended_display host hosted v r grounded known
  | _ => exact tended_beside host r _ ⟨grounded.heap, grounded.running, grounded.waiting, grounded.handlers⟩ rfl rfl

theorem tended_uses (uses : List Use) (r : Realm) (grounded : r.Grounded) (known : KnownUses host r uses) :
    Tended host r (uses.foldl (fun r use => use.after host r) r) := by
  induction uses generalizing r with
  | nil => exact tended_beside host r r grounded rfl rfl
  | cons use rest hyp =>
    obtain ⟨here, later⟩ := known
    have tended := tended_use host hosted use r grounded here
    exact tended_trans host r (use.after host r) _ tended (hyp _ tended.1 later)

end

end Ecma

/-!
However a host uses a realm, links lead down in each state on the way, and what there is keeps them.
-/

namespace Ecma

open Run

theorem visits_lawful (host : HostFunction) (r s : Realm) (t : List Moment) (visits : Visits host r t s) :
    ∀ m ∈ t, m.Lawful := by
  induction visits with
  | nil r => exact fun m member => absurd member List.not_mem_nil
  | run x r s t t' course rest hyp =>
    have first := chain_lawful _ _ t (course_chain host boundless boundless false x r t course)
    exact fun m member => (List.mem_append.mp member).elim (first m) (hyp m)
  | beside r r' s t same rest hyp => exact hyp

theorem heap_after_grounded (h : Heap) (t : List Moment) (grounded : h.Grounded) (each : ∀ m ∈ t, m.Orderly) :
    (heapAfter h t).Grounded := by
  induction t generalizing h with
  | nil => exact grounded
  | cons m t hyp =>
    exact hyp m.after.heap (each m List.mem_cons_self).after.heap fun n later => each n (List.mem_cons_of_mem m later)

theorem links_well_founded (host : HostFunction) (hosted : host.Careful) (config : Config) (uses : List Use)
    (known : KnownUses host (Realm.create config) uses) :
    ∃ t, Visits host (Realm.create config) t (uses.foldl (fun r use => use.after host r) (Realm.create config)) ∧
      (∀ m ∈ t, m.before.heap.Extends m.after.heap) ∧
      ∀ early late, t = early ++ late →
        (heapAfter (Realm.create config).heap early).Descends ∧
        (heapAfter (Realm.create config).heap early).Founded ∧
        (heapAfter (Realm.create config).heap early).Loops := by
  have grounded := create_grounded config
  obtain ⟨_, t, visits, _, each⟩ := tended_uses host hosted uses (Realm.create config) grounded known
  refine ⟨t, visits, fun m member => lawful_extends m (visits_lawful host _ _ t visits m member), fun early late is => ?_⟩
  have descends : (heapAfter (Realm.create config).heap early).Descends := by
    refine Heap.grounded_descends _ (heap_after_grounded _ early grounded.heap fun m member => each m ?_)
    exact is ▸ List.mem_append_left late member
  exact ⟨descends, Heap.descends_founded _ descends, Heap.descends_loops _ descends⟩

-- The host registers itself, runs a program and hands the global object to a handler that the program has left.
def handlerUses : List Use :=
  [.register "call" "call", .evaluate "setSystemHandler('done', function (o) { return Object.create(o) })" "start",
    .handler "done" [.object Intrinsic.global]]

theorem handler_uses_known : KnownUses callingHost (Realm.create {}) handlerUses := by
  have first : KnownUses callingHost (Realm.create {}) (handlerUses.take 2) := ⟨trivial, trivial, trivial⟩
  obtain ⟨grounded, _⟩ := tended_uses callingHost calling_host_careful _ _ (create_grounded {}) first
  refine ⟨trivial, trivial, fun v member => ?_, trivial⟩
  cases List.mem_singleton.mp member
  exact grounded.intrinsic _ (by decide)

theorem links_well_founded_handler :
    callingHost.Careful ∧ KnownUses callingHost (Realm.create {}) handlerUses ∧
    ∃ t, Visits callingHost (Realm.create {}) t
        (handlerUses.foldl (fun r use => use.after callingHost r) (Realm.create {})) ∧
      (∀ m ∈ t, m.before.heap.Extends m.after.heap) ∧
      ∀ early late, t = early ++ late →
        (heapAfter (Realm.create {}).heap early).Descends ∧
        (heapAfter (Realm.create {}).heap early).Founded ∧
        (heapAfter (Realm.create {}).heap early).Loops := by
  exact ⟨calling_host_careful, handler_uses_known,
    links_well_founded callingHost calling_host_careful {} handlerUses handler_uses_known⟩

end Ecma

/-!
However a host uses a realm, the own keys of each object are those of its properties, in the order in which they
were last made.
-/

namespace Ecma

open Run

/-! The age of properties. -/

-- For how long a property has been there without a break, in states from the latest to the first.
def standing (states : List Heap) (id : ObjectId) (key : PropertyKey) : Nat :=
  (states.takeWhile fun h => (h.own? id key).isSome).length

section

variable (k h : Heap) (rest : List Heap) (id : ObjectId) (key : PropertyKey)

variable (ages : h.Ages k)
include ages

end

section

variable (id : ObjectId) (a b : String)

end

/-! States of a visit. -/

-- The states so far, from the latest to the first.
def states (h : Heap) (t : List Moment) : List Heap :=
  (t.map fun m => m.after.heap).reverse ++ [h]

end Ecma
