import Ecma.Engine
import Ecma.Proofs.Realm.Lock
import Ecma.Proofs.Storage.Entering

set_option autoImplicit false

/-!
Whether bindings may live in slots makes no difference that scripts or the host can see, and neither does
whether names are found by resolution.
-/

namespace Ecma

open Ecma.Program Ecma.Scope Ecma.Syntax Run

/-! A fresh realm. -/

namespace Setup

variable {α β : Type} (I : Heap → Prop)

/-- What holds of a heap still holds after some of the engine has been added. -/
def Preserves (x : Setup α) : Prop :=
  ∀ h : Heap, I h → I (x.run h).2

theorem preserves_bind (x : Setup α) (f : α → Setup β) (first : Preserves I x) (second : ∀ a, Preserves I (f a)) :
    Preserves I (x >>= f) := by
  exact fun h holds => second (x.run h).1 _ (first h holds)

theorem preserves_for (items : List α) (f : α → Setup Unit) (each : ∀ a, Preserves I (f a)) :
    Preserves I (items.forM f) := by
  induction items with
  | nil => exact fun h holds => holds
  | cons a rest hyp => exact preserves_bind I _ _ (each a) fun _ => hyp

variable (store : ∀ (h : Heap) holder key d, I h → I (h.store holder key d))
  (object : ∀ (h : Heap) (o : Object), o.kind.isPlain = true → I h → I (h.addObject o).2)
include store

theorem preserves_define (holder : ObjectId) (name : String) (d : Descriptor) : Preserves I (define holder name d) := by
  exact fun h holds => store h _ _ _ holds

theorem preserves_error_constructor (id prototype : ObjectId) (name : String) :
    Preserves I (errorConstructor id prototype name) := by
  have defines := preserves_define I store
  refine preserves_bind I _ _ (defines _ _ _) fun _ => preserves_bind I _ _ (defines _ _ _) fun _ => ?_
  refine preserves_bind I _ _ (defines _ _ _) fun _ => preserves_bind I _ _ (defines _ _ _) fun _ => ?_
  exact defines _ _ _

include object

theorem preserves_method (holder : ObjectId) (f : Builtin) : Preserves I (method holder f) := by
  refine preserves_bind I _ _ (fun h holds => object h _ rfl holds) fun id => ?_
  exact preserves_define I store _ _ _

theorem preserves_constructor (f : Builtin) (prototype : ObjectId) (statics : List Builtin)
    (values : List (String × Value)) (methods : List Builtin) :
    Preserves I (constructor f prototype statics values methods) := by
  have defines := preserves_define I store
  have methods' := preserves_method I store object
  refine preserves_bind I _ _ (fun h holds => object h _ rfl holds) fun id => ?_
  refine preserves_bind I _ _ (preserves_for I _ _ fun _ => methods' _ _) fun _ => ?_
  refine preserves_bind I _ _ (preserves_for I _ _ fun _ => defines _ _ _) fun _ => ?_
  refine preserves_bind I _ _ (defines _ _ _) fun _ => preserves_bind I _ _ (defines _ _ _) fun _ => ?_
  exact preserves_bind I _ _ (preserves_for I _ _ fun _ => methods' _ _) fun _ => defines _ _ _

theorem preserves_all (traceLimit : Nat) : Preserves I (all traceLimit) := by
  have defines := preserves_define I store
  have methods := preserves_method I store object
  have errors := preserves_error_constructor I store
  have constructs := preserves_constructor I store object
  refine preserves_bind I _ _ ?_ fun _ => preserves_bind I _ _ (constructs _ _ _ _ _) fun _ => ?_
  · refine preserves_bind I _ _ (defines _ _ _) fun _ => preserves_bind I _ _ (defines _ _ _) fun _ => ?_
    refine preserves_bind I _ _ (defines _ _ _) fun _ => preserves_bind I _ _ (defines _ _ _) fun _ => ?_
    exact preserves_bind I _ _ (defines _ _ _) fun _ => preserves_for I _ _ fun _ => methods _ _
  refine preserves_bind I _ _ (constructs _ _ _ _ _) fun _ => preserves_bind I _ _ (constructs _ _ _ _ _) fun _ => ?_
  refine preserves_bind I _ _ (constructs _ _ _ _ _) fun _ => preserves_bind I _ _ ?_ fun _ => ?_
  · exact preserves_bind I _ _ (constructs _ _ _ _ _) fun _ => constructs _ _ _ _ _
  refine preserves_bind I _ _ ?_ fun _ => ?_
  · refine preserves_bind I _ _ (errors _ _ _) fun _ => preserves_bind I _ _ (defines _ _ _) fun _ => ?_
    refine preserves_bind I _ _ (methods _ _) fun _ => ?_
    refine preserves_bind I _ _ (fun h holds => object h _ rfl holds) fun stack => ?_
    refine preserves_bind I _ _ (defines _ _ _) fun _ => preserves_for I _ _ fun kind => ?_
    exact preserves_bind I _ _ (fun h holds => object h _ rfl holds) fun id => errors _ _ _
  · refine preserves_bind I _ _ (fun h holds => object h _ rfl holds) fun id => ?_
    exact preserves_bind I _ _ (methods _ _) fun _ => preserves_bind I _ _ (methods _ _) fun _ => defines _ _ _

end Setup

/-- A heap in which nothing has run. -/
structure Heap.Untouched (h : Heap) : Prop where
  plain : ∀ id, (h.object id).kind.isPlain = true
  environments : h.environments = intrinsicHeap.environments
  frames : h.frames = intrinsicHeap.frames
  home : h.kind Intrinsic.global = .ordinary ∧ Intrinsic.global < h.objects.size

theorem intrinsic_plain (id : ObjectId) : (intrinsicHeap.object id).kind.isPlain = true := by
  by_cases known : id < 17
  · interval_cases id
    all_goals rfl
  · have unknown : ¬ id < intrinsicHeap.objects.size := known
    rw [Heap.object_unknown _ id unknown]
    rfl

theorem intrinsic_untouched : intrinsicHeap.Untouched := by
  exact ⟨intrinsic_plain, rfl, rfl, rfl, by decide⟩

theorem store_untouched (h : Heap) (holder : ObjectId) (key : PropertyKey) (d : Descriptor) (untouched : h.Untouched) :
    (h.store holder key d).Untouched := by
  have same (id : ObjectId) : (h.store holder key d).kind id = h.kind id := by
    rw [Heap.kind, Heap.store, Heap.modify_properties_object]
    split <;> rfl
  refine ⟨fun id => ?_, untouched.environments, untouched.frames, (same _).trans untouched.home.1, ?_⟩
  · exact (congrArg ObjectKind.isPlain (same id)).trans (untouched.plain id)
  · exact (Heap.size_modify h holder _).symm ▸ untouched.home.2

theorem add_untouched (h : Heap) (o : Object) (plain : o.kind.isPlain = true) (untouched : h.Untouched) :
    (h.addObject o).2.Untouched := by
  refine ⟨fun id => ?_, untouched.environments, untouched.frames, ?_, ?_⟩
  · rw [Heap.object_add]
    split
    · exact plain
    · exact untouched.plain id
  · rw [Heap.kind, Heap.object_add_known h o _ untouched.home.2]
    exact untouched.home.1
  · exact Nat.lt_trans untouched.home.2 (Array.size_push o ▸ Nat.lt_succ_self _)

theorem create_untouched (config : Config) : (Realm.create config).heap.Untouched := by
  have kept := Setup.preserves_all Heap.Untouched store_untouched add_untouched config.traceLimit intrinsicHeap
    intrinsic_untouched
  delta Realm.create
  dsimp only
  exact kept

namespace Storage

/-- The world of two fresh realms. Nothing uses the first frame. -/
def World.start : World where
  infos := [⟨.object Intrinsic.global false, some Intrinsic.globalEnvironment, none, none⟩]
  frames := [({}, 0)]
  links := []

theorem start_related (h : Heap) (untouched : h.Untouched) : HeapRelated .start [] [] h h := by
  have environments := untouched.environments
  have frames := untouched.frames
  have only (e : EnvironmentId) (info : Info) (has : World.start.Has e info) :
      e = 0 ∧ info = ⟨.object Intrinsic.global false, some Intrinsic.globalEnvironment, none, none⟩ := by
    cases e with
    | zero => exact ⟨rfl, (Option.some.inj has).symm⟩
    | succ e => cases has
  refine {
    objects := rfl
    object := fun id => ⟨.plain _ (untouched.plain id), rfl, rfl, rfl⟩
    frames₁ := by rw [frames]; rfl, frames₂ := by rw [frames]; rfl
    frame := fun f t code found => ?_, environments := by rw [environments]; rfl
    environment := fun e info has => ?_, apart := fun e₁ e₂ f₂ info other has has' _ _ => ?_
    link := nofun, placed := nofun, placed_live := nofun, slots := nofun, names := nofun
    tethered := ⟨fun id i a mapped => ?_, fun id _ i _ a mapped _ => ?_⟩
    globals := .outermost _ _ _ rfl rfl rfl rfl rfl rfl, global := ⟨_, rfl, rfl, rfl⟩, home := untouched.home }
  · cases f with
    | zero =>
      cases Option.some.inj found
      refine ⟨#[], by rw [frames]; rfl, rfl⟩
    | succ f => cases found
  · obtain ⟨rfl, rfl⟩ := only e info has
    refine ⟨.object Intrinsic.global false, by rw [environments]; rfl, fun e₁ twin => ?_, nofun, nofun, rfl⟩
    cases twin
    rw [environments]
    rfl
  · exact (only e₂ info has).1.trans (only f₂ other has').1.symm
  · rw [Heap.alias_mapped, plain_mapped _ (untouched.plain id)] at mapped
    cases mapped
  · rw [Heap.alias_mapped, plain_mapped _ (untouched.plain id)] at mapped
    cases mapped

/-! Entries. -/

/-- Two realms between entries that look the same. -/
structure Matched (r₁ r₂ : Realm) : Prop where
  related : ∃ W, Related W [] [] r₁ r₂
  position : r₁.running.position = r₂.running.position

/-- Where two realms stand. -/
def standOf (r₁ r₂ : Realm) : Stand :=
  ⟨r₁.running, r₂.running, r₁.waiting, r₂.waiting⟩

theorem stand_holds (r₁ r₂ : Realm) (position : r₁.running.position = r₂.running.position) :
    (standOf r₁ r₂).Holds r₁ r₂ := by
  exact ⟨⟨r₁.running.position, rfl, by rw [position]; rfl⟩, rfl, rfl⟩

theorem holds_matched (V : World) (r₁ r₂ k₁ k₂ : Realm) (related : Related V [] [] k₁ k₂)
    (holds : (standOf r₁ r₂).Holds k₁ k₂) : Matched k₁ k₂ ∧ k₁.depth = r₁.depth ∧ k₂.depth = r₂.depth := by
  obtain ⟨⟨p, first, second⟩, waits₁, waits₂⟩ := holds
  refine ⟨⟨⟨V, related⟩, by rw [first, second]⟩, ?_, ?_⟩
  · rw [Realm.depth, waits₁]
    rfl
  · rw [Realm.depth, waits₂]
    rfl

/-- What two entries give, each made twice with lookups of different kinds. -/
structure Concord {β : Type} (a₁ b₁ a₂ b₂ : β × Realm) : Prop where
  first : b₁ = a₁
  second : b₂ = a₂
  same : a₁.1 = a₂.1
  matched : Matched a₁.2 a₂.2

theorem concord_same {β : Type} (b : β) (r₁ r₂ : Realm) (matched : Matched r₁ r₂) :
    Concord (b, r₁) (b, r₁) (b, r₂) (b, r₂) := by
  exact ⟨rfl, rfl, rfl, matched⟩

/-- The text of an object of some kind. -/
def showing (id : ObjectId) : ObjectKind → Run String
  | .error _ => errorSummary id
  | _ => toText (.object id)

theorem showing_face (id : ObjectId) (k : ObjectKind) : showing id k.face = showing id k := by
  unfold ObjectKind.face
  split <;> rfl

theorem display_sighted (v : Value) : Sighted (Realm.displayRun v) := by
  have texts (v : Value) : Sighted (toText v) := .uniform _ (to_text_native v).uniform
  cases v with
  | object id =>
    refine .look (fun r => showing id (r.heap.kind id)) (fun r s same => ?_) fun r => ?_
    · rw [← showing_face, same.heap.kind, showing_face]
    · cases r.heap.kind id with
      | error frames => exact .uniform _ (error_summary_native id).uniform
      | _ => exact texts _
  | _ => exact texts _

theorem reset_matched (r₁ r₂ : Realm) (matched : Matched r₁ r₂) : Matched r₁.resetSteps r₂.resetSteps := by
  obtain ⟨W, related⟩ := matched.related
  exact ⟨⟨W, { related with steps := rfl }⟩, matched.position⟩

-- Nothing is left to leave.
theorem unwind_same (depth : Nat) (r : Realm) (same : r.depth = depth) : unwindTo depth r = r := by
  rw [unwindTo, same, Nat.sub_self]
  rfl

section

variable (host : HostFunction) (other₁ other₂ : Nat → Machine)

-- Two runs end alike in matched realms.
def EndMatched {α : Type} (x₁ x₂ : Run α) (r₁ r₂ : Realm) : Prop :=
  (∃ a k₁ k₂, x₁.on host r₁ = .ok a k₁ ∧ x₂.on host r₂ = .ok a k₂ ∧ Matched k₁ k₂ ∧ k₁.depth = r₁.depth ∧
      k₂.depth = r₂.depth) ∨
    ∃ e k₁ k₂, x₁.on host r₁ = .error e k₁ ∧ x₂.on host r₂ = .error e k₂ ∧ Matched k₁ k₂ ∧ k₁.depth = r₁.depth ∧
      k₂.depth = r₂.depth

/-- A run from matched realms ends in matched realms, and other machines do the same. -/
theorem on_matched {α : Type} (x₁ x₂ : Run α) (r₁ r₂ : Realm) (matched : Matched r₁ r₂)
    (sim : ∀ W, Related W [] [] r₁ r₂ →
      Sim (beside host other₁ other₂ boundless boundless) W [] (standOf r₁ r₂) x₁ x₂ Same) :
    x₁ (other₁ boundless) r₁ = x₁.on host r₁ ∧ x₂ (other₂ boundless) r₂ = x₂.on host r₂ ∧
      EndMatched host x₁ x₂ r₁ r₂ := by
  obtain ⟨W, related⟩ := matched.related
  rcases sim_ends _ W [] _ x₁ x₂ (sim W related) r₁ r₂ related (stand_holds r₁ r₂ matched.position) with
    ⟨V, a, k₁, k₂, returns⟩ | ⟨V, e, k₁, k₂, breaks⟩
  · refine ⟨returns.other₁.trans returns.first.symm, returns.other₂.trans returns.second.symm, Or.inl ?_⟩
    exact ⟨a, k₁, k₂, returns.first, returns.second, holds_matched V r₁ r₂ k₁ k₂ returns.related returns.holds⟩
  · refine ⟨breaks.other₁.trans breaks.first.symm, breaks.other₂.trans breaks.second.symm, Or.inr ?_⟩
    exact ⟨e, k₁, k₂, breaks.first, breaks.second, holds_matched V r₁ r₂ k₁ k₂ breaks.related breaks.holds⟩

end

section

variable (host : HostFunction) (lookup₁ lookup₂ : Lookup)

/-- The machines of a depth: with lookups of their own, and with those that follow resolution. -/
def machines (rounds depth : Nat) : Machines :=
  beside host (machine host lookup₁ rounds) (machine host lookup₂ rounds) rounds depth

-- Lookups that trust resolution do the same.
theorem on_lookups {α : Type} (x₁ x₂ : Run α) (r₁ r₂ : Realm) (matched : Matched r₁ r₂)
    (sim : ∀ W, Related W [] [] r₁ r₂ →
      Sim (machines host lookup₁ lookup₂ boundless boundless) W [] (standOf r₁ r₂) x₁ x₂ Same) :
    x₁.on host r₁ lookup₁ = x₁.on host r₁ ∧ x₂.on host r₂ lookup₂ = x₂.on host r₂ ∧ EndMatched host x₁ x₂ r₁ r₂ := by
  exact on_matched host _ _ x₁ x₂ r₁ r₂ matched sim

variable (hosted : host.Sighted) (wary₁ : lookup₁.Wary) (wary₂ : lookup₂.Wary)
include hosted wary₁ wary₂

/-- Machines that trust resolution, or that follow it, enter code alike. -/
theorem machines_fit (rounds depth : Nat) : (machines host lookup₁ lookup₂ rounds depth).Fit := by
  exact beside_fit host hosted rounds _ _ (machine_follows host lookup₁ wary₁ rounds)
    (machine_follows host lookup₂ wary₂ rounds) depth

theorem display_matched (v : Value) (r₁ r₂ : Realm) (matched : Matched r₁ r₂) :
    Concord (r₁.display host v) (r₁.display host v lookup₁) (r₂.display host v) (r₂.display host v lookup₂) := by
  have fit := machines_fit host lookup₁ lookup₂ hosted wary₁ wary₂ boundless boundless
  obtain ⟨same₁, same₂, ends⟩ := on_lookups host lookup₁ lookup₂ _ _ r₁ r₂ matched fun W _ =>
    sighted_sim _ W [] _ fit _ (display_sighted v)
  rw [Realm.display, Realm.display, Realm.display, Realm.display, same₁, same₂]
  rcases ends with ⟨a, k₁, k₂, first, second, matched', _⟩ | ⟨e, k₁, k₂, first, second, matched', depth₁, depth₂⟩
  · rw [first, second]
    exact ⟨rfl, rfl, rfl, matched'⟩
  · rw [first, second]
    dsimp only
    rw [unwind_same _ k₁ depth₁, unwind_same _ k₂ depth₂]
    obtain ⟨V, related⟩ := matched'.related
    exact ⟨rfl, rfl, Heap.display_same k₁.heap k₂.heap (heaps_same_view V [] [] _ _ related.heap) v, matched'⟩

theorem finish_matched (x₁ x₂ : Run Value) (r₁ r₂ : Realm) (matched : Matched r₁ r₂)
    (sim : ∀ W, Related W [] [] r₁ r₂ →
      Sim (machines host lookup₁ lookup₂ boundless boundless) W [] (standOf r₁ r₂) x₁ x₂ Same) :
    Concord (Realm.finish host r₁.depth .resolved (x₁.on host r₁))
      (Realm.finish host r₁.depth lookup₁ (x₁.on host r₁ lookup₁))
      (Realm.finish host r₂.depth .resolved (x₂.on host r₂))
      (Realm.finish host r₂.depth lookup₂ (x₂.on host r₂ lookup₂)) := by
  obtain ⟨same₁, same₂, ends⟩ := on_lookups host lookup₁ lookup₂ _ _ r₁ r₂ matched sim
  rw [same₁, same₂]
  rcases ends with ⟨a, k₁, k₂, first, second, matched', _⟩ | ⟨e, k₁, k₂, first, second, matched', depth₁, depth₂⟩
  · rw [first, second]
    exact ⟨rfl, rfl, rfl, matched'⟩
  · rw [first, second]
    have back₁ := unwind_same _ k₁ depth₁
    have back₂ := unwind_same _ k₂ depth₂
    cases e with
    | thrown v =>
      obtain ⟨shows₁, shows₂, same, matched''⟩ :=
        display_matched host lookup₁ lookup₂ hosted wary₁ wary₂ v k₁ k₂ matched'
      rw [Realm.finish, Realm.finish, Realm.finish, Realm.finish, back₁, back₂]
      dsimp only
      rw [shows₁, shows₂, same]
      exact ⟨rfl, rfl, rfl, matched''⟩
    | _ =>
      rw [Realm.finish, Realm.finish, Realm.finish, Realm.finish, back₁, back₂]
      exact ⟨rfl, rfl, rfl, matched'⟩

theorem evaluate_matched (text filename : String) (r₁ r₂ : Realm) (matched : Matched r₁ r₂) :
    Concord (r₁.evaluateProgram host text filename) (r₁.evaluateProgram host text filename lookup₁)
      (r₂.evaluateProgram host text filename) (r₂.evaluateProgram host text filename lookup₂) := by
  have fit := machines_fit host lookup₁ lookup₂ hosted wary₁ wary₂ boundless boundless
  have parses (collapse : Bool) : parseProgram text filename collapse =
      (built ⟨filename, text⟩ .global false false).map (Parsed.analyzed collapse) := parse_unit_is _ _ _ _ _
  obtain ⟨W, related⟩ := matched.related
  delta Realm.evaluateProgram
  rw [related.collapse₁, related.collapse₂, parses, parses]
  cases result : built ⟨filename, text⟩ .global false false with
  | error e => exact concord_same _ r₁ r₂ matched
  | ok parsed =>
    obtain ⟨formed, rooted, _⟩ := built_rooted _ _ _ _ parsed (fun contra => by cases contra) result
    refine finish_matched host lookup₁ lookup₂ hosted wary₁ wary₂ _ _ _ _ (reset_matched r₁ r₂ matched)
      fun W related => fit.enter W [] _ _ _ ?_
    have globals := related.heap.globals
    exact .code _ _ _ _ _ _ _ _ _ formed rooted (fun _ => ⟨⟨rfl, rfl⟩, rfl, rfl⟩) globals globals (.inl rfl)

theorem call_matched (f this : Value) (args : List Value) (r₁ r₂ : Realm) (matched : Matched r₁ r₂) :
    Concord (r₁.callFunction host f this args) (r₁.callFunction host f this args lookup₁)
      (r₂.callFunction host f this args) (r₂.callFunction host f this args lookup₂) := by
  have fit := machines_fit host lookup₁ lookup₂ hosted wary₁ wary₂ boundless boundless
  exact finish_matched host lookup₁ lookup₂ hosted wary₁ wary₂ _ _ _ _ (reset_matched r₁ r₂ matched)
    fun W _ => uniform_sim _ W [] _ fit _ (call_native f this args).uniform

theorem handler_matched (name : String) (args : List Value) (r₁ r₂ : Realm) (matched : Matched r₁ r₂) :
    Concord (r₁.callHandler host name args) (r₁.callHandler host name args lookup₁)
      (r₂.callHandler host name args) (r₂.callHandler host name args lookup₂) := by
  obtain ⟨W, related⟩ := matched.related
  rw [Realm.callHandler, Realm.callHandler, Realm.callHandler, Realm.callHandler, related.handlers]
  cases r₂.handlers.find? name with
  | none => exact concord_same _ r₁ r₂ matched
  | some handler =>
    dsimp only
    rw [Heap.is_callable_same _ _ (heaps_same_view W [] [] _ _ related.heap)]
    split
    · exact call_matched host lookup₁ lookup₂ hosted wary₁ wary₂ handler .undefined args r₁ r₂ matched
    · exact concord_same _ r₁ r₂ matched

theorem global_matched (name : String) (r₁ r₂ : Realm) (matched : Matched r₁ r₂) :
    Concord (r₁.globalValue host name) (r₁.globalValue host name lookup₁)
      (r₂.globalValue host name) (r₂.globalValue host name lookup₂) := by
  have fit := machines_fit host lookup₁ lookup₂ hosted wary₁ wary₂ boundless boundless
  exact finish_matched host lookup₁ lookup₂ hosted wary₁ wary₂ _ _ r₁ r₂ matched
    fun W _ => uniform_sim _ W [] _ fit _ (get_native _ _).uniform

end

end Storage

/-! Histories. -/

/-- What the host gets out of a use. -/
inductive Outcome where
  | entry (e : Entry)
  | text (text : String)
  | found (was : Bool)
  | output (stdout stderr : String)
  | nothing
deriving DecidableEq

/-- Uses a realm, while running code finds names in some way. -/
def Use.perform (host : HostFunction) (lookup : Lookup) (r : Realm) : Use → Outcome × Realm
  | .evaluate text filename => (r.evaluateProgram host text filename lookup).map .entry id
  | .call f this args => (r.callFunction host f this args lookup).map .entry id
  | .handler name args => (r.callHandler host name args lookup).map .entry id
  | .global name => (r.globalValue host name lookup).map .entry id
  | .display v => (r.display host v lookup).map .text id
  | .register name word => (.nothing, r.register name word)
  | .unregister name => (r.unregister name).map .found id
  | .takeOutput => r.takeOutput.map (fun texts => .output texts.1 texts.2) id

theorem perform_after (host : HostFunction) (use : Use) (r : Realm) :
    (use.perform host .resolved r).2 = use.after host r := by
  cases use <;> rfl

/-- What each of some uses gives, with the realm after it. -/
def history (host : HostFunction) (lookup : Lookup) : Realm → List Use → List (Outcome × Realm)
  | _, [] => []
  | r, use :: rest =>
    let given := use.perform host lookup r
    given :: history host lookup given.2 rest

/-- The same outcome, and afterwards nothing that scripts or the host can tell apart. -/
structure SameMoment (a b : Outcome × Realm) : Prop where
  outcome : a.1 = b.1
  view : a.2.SameView b.2
  steps : a.2.steps = b.2.steps
  output : a.2.takeOutput.1 = b.2.takeOutput.1
  depth : a.2.depth = b.2.depth
  stack : a.2.captureStack = b.2.captureStack

namespace Storage

theorem concord_map {β γ : Type} (f : β → γ) (a₁ b₁ a₂ b₂ : β × Realm) (concord : Concord a₁ b₁ a₂ b₂) :
    Concord (a₁.map f id) (b₁.map f id) (a₂.map f id) (b₂.map f id) := by
  obtain ⟨rfl, rfl, same, matched⟩ := concord
  exact ⟨rfl, rfl, congrArg f same, matched⟩

section

variable (host : HostFunction) (hosted : host.Sighted) (lookup₁ lookup₂ : Lookup) (wary₁ : lookup₁.Wary)
  (wary₂ : lookup₂.Wary)
include hosted wary₁ wary₂

theorem perform_matched (use : Use) (r₁ r₂ : Realm) (matched : Matched r₁ r₂) :
    Concord (use.perform host .resolved r₁) (use.perform host lookup₁ r₁)
      (use.perform host .resolved r₂) (use.perform host lookup₂ r₂) := by
  obtain ⟨W, related⟩ := matched.related
  cases use with
  | evaluate text filename =>
    exact concord_map _ _ _ _ _ (evaluate_matched host lookup₁ lookup₂ hosted wary₁ wary₂ _ _ r₁ r₂ matched)
  | call f this args =>
    exact concord_map _ _ _ _ _ (call_matched host lookup₁ lookup₂ hosted wary₁ wary₂ _ _ _ r₁ r₂ matched)
  | handler name args =>
    exact concord_map _ _ _ _ _ (handler_matched host lookup₁ lookup₂ hosted wary₁ wary₂ _ _ r₁ r₂ matched)
  | global name =>
    exact concord_map _ _ _ _ _ (global_matched host lookup₁ lookup₂ hosted wary₁ wary₂ _ r₁ r₂ matched)
  | display v =>
    exact concord_map _ _ _ _ _ (display_matched host lookup₁ lookup₂ hosted wary₁ wary₂ v r₁ r₂ matched)
  | register name word =>
    refine ⟨rfl, rfl, rfl, ⟨W, { related with hosts := ?_ }⟩, matched.position⟩
    exact congrArg (Dictionary.put · name word) related.hosts
  | unregister name =>
    refine ⟨rfl, rfl, ?_, ⟨W, { related with hosts := ?_ }⟩, matched.position⟩
    · exact congrArg (fun hosts => Outcome.found (Dictionary.has hosts name)) related.hosts
    · exact congrArg (Dictionary.erase · name) related.hosts
  | takeOutput =>
    refine ⟨rfl, rfl, ?_, ⟨W, { related with stdout := rfl, stderr := rfl }⟩, matched.position⟩
    exact congrArg₂ Outcome.output related.stdout related.stderr

theorem history_matched (uses : List Use) (r₁ r₂ : Realm) (matched : Matched r₁ r₂) :
    history host lookup₁ r₁ uses = history host .resolved r₁ uses ∧
      history host lookup₂ r₂ uses = history host .resolved r₂ uses ∧
        List.Forall₂ SameMoment (history host .resolved r₁ uses) (history host .resolved r₂ uses) := by
  induction uses generalizing r₁ r₂ with
  | nil => exact ⟨rfl, rfl, .nil⟩
  | cons use rest hyp =>
    obtain ⟨first, second, same, after⟩ :=
      perform_matched host hosted lookup₁ lookup₂ wary₁ wary₂ use r₁ r₂ matched
    obtain ⟨rest₁, rest₂, moments⟩ := hyp _ _ after
    obtain ⟨W, related⟩ := after.related
    have view := realms_same_view W [] [] _ _ related
    rw [history, history, history, history, first, second]
    refine ⟨congrArg _ rest₁, congrArg _ rest₂, .cons ⟨same, view, related.steps, ?_, ?_, ?_⟩ moments⟩
    · exact congrArg₂ Prod.mk related.stdout related.stderr
    · exact Realm.depth_same _ _ view
    · exact Realm.capture_same _ _ view

end

theorem fresh_matched (config : Config) :
    Matched (Realm.create { config with collapse := true }) (Realm.create { config with collapse := false }) := by
  have heap := start_related _ (create_untouched config)
  exact ⟨⟨.start, heap, rfl, rfl, rfl, rfl, rfl, rfl, rfl, rfl, rfl, rfl⟩, rfl⟩

end Storage

theorem resolved_trusting : Lookup.resolved.Trusting := by
  exact fun _ _ _ _ => rfl

/-- Two fresh realms that differ only in whether bindings may live in slots give the host the same, use by use. -/
theorem slots_make_no_difference (host : HostFunction) (hosted : host.Sighted) (config : Config) (uses : List Use) :
    List.Forall₂ SameMoment (history host .resolved (Realm.create { config with collapse := true }) uses)
      (history host .resolved (Realm.create { config with collapse := false }) uses) := by
  have wary := trusting_wary _ resolved_trusting
  exact (Storage.history_matched host hosted .resolved .resolved wary wary uses _ _
    (Storage.fresh_matched config)).2.2

theorem calling_host_sighted : callingHost.Sighted := by
  exact fun word this args => .uniform _ (call_native _ _ _).uniform

-- A host that only calls back runs a function with a closure over its variable.
theorem slots_make_no_difference_closure :
    let uses := [Use.evaluate "function f(x) \x7b var y = x; return function () \x7b return x + y++ \x7d \x7d; g = f(1)"
      "main.js", .global "g"]
    callingHost.Sighted ∧ List.Forall₂ SameMoment (history callingHost .resolved (Realm.create { collapse := true }) uses)
      (history callingHost .resolved (Realm.create { collapse := false }) uses) := by
  exact ⟨calling_host_sighted, slots_make_no_difference callingHost calling_host_sighted {} _⟩

end Ecma
