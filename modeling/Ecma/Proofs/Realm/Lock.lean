import Mathlib.Tactic.IntervalCases
import Ecma.Proofs.Heap.Length
import Ecma.Proofs.Heap.Lock
import Ecma.Proofs.Run.Signal
import Ecma.Realm.Create

set_option autoImplicit false

/-!
The heap of a fresh realm: `Array.prototype` is its only array, and there are no arguments objects.

Locked properties stay locked, in whatever way the host uses a realm. There are two exceptions: the number
of captured lines, which is stored over what is there, and the length of `Array.prototype`, which can be
deleted and then has no rule of arrays to follow.
-/

namespace Ecma

open Setup

-- No object but `Array.prototype` has properties with a role.
def Heap.Bare (h : Heap) : Prop :=
  ∀ id, (id ≠ Intrinsic.arrayPrototype → (h.object id).kind.isArray = false) ∧ (h.object id).kind.mapped = []

theorem Heap.bare_sound (h : Heap) (bare : h.Bare) : h.Sound := by
  refine ⟨fun id special isArray => ?_, fun id i a mapped => ?_⟩
  · exact absurd isArray (by rw [(bare id).1 special]; exact Bool.false_ne_true)
  · rw [(bare id).2] at mapped
    cases mapped

-- The heap while it is set up. `Array.prototype` has a length that can be deleted, and no elements.
structure Heap.Fresh (h : Heap) : Prop where
  bare : h.Bare
  known : Intrinsic.arrayPrototype < h.objects.size
  array : (h.object Intrinsic.arrayPrototype).kind.isArray = true
  length : (h.object Intrinsic.arrayPrototype).properties.find? .length = some (.hidden (.number 0.0))
  empty : ∀ i, (h.object Intrinsic.arrayPrototype).properties.find? (.index i) = none

namespace Setup

variable {α β : Type}

-- What is set up leaves a fresh heap fresh, and gives what is expected.
def Keeps (x : Setup α) (gives : α → Prop) : Prop :=
  ∀ h : Heap, h.Fresh → (x.run h).2.Fresh ∧ gives (x.run h).1

-- A name that `Array.prototype` can have without an effect on its elements.
def Plain (name : String) : Prop :=
  ∃ s, PropertyKey.ofString name = .name s ∧ s ≠ "length"

def anything (_ : α) : Prop :=
  True

def apart (id : ObjectId) : Prop :=
  id ≠ Intrinsic.arrayPrototype

theorem keeps_bind (x : Setup α) (f : α → Setup β) (middle : α → Prop) (gives : β → Prop) (first : Keeps x middle)
    (second : ∀ a, middle a → Keeps (f a) gives) : Keeps (x >>= f) gives := by
  intro h fresh
  obtain ⟨fresh', given⟩ := first h fresh
  exact second (x.run h).1 given _ fresh'

theorem keeps_then (x : Setup Unit) (y : Setup β) (gives : β → Prop) (first : Keeps x anything)
    (second : Keeps y gives) : Keeps (x >>= fun _ => y) gives := by
  exact keeps_bind _ _ anything gives first fun _ _ => second

theorem keeps_for (items : List α) (f : α → Setup Unit) (each : ∀ a ∈ items, Keeps (f a) anything) :
    Keeps (items.forM f) anything := by
  induction items with
  | nil => exact fun _ fresh => ⟨fresh, trivial⟩
  | cons a rest hyp =>
    exact keeps_then _ _ _ (each a List.mem_cons_self) (hyp fun b member => each b (List.mem_cons_of_mem a member))

theorem keeps_define (holder : ObjectId) (name : String) (d : Descriptor)
    (plain : holder = Intrinsic.arrayPrototype → Plain name) : Keeps (define holder name d) anything := by
  intro h fresh
  have object (id : ObjectId) : ((define holder name d).run h).2.object id = if holder = id ∧ holder < h.objects.size then
      { h.object id with properties := (h.object id).properties.insert (.ofString name) d } else h.object id :=
    Heap.object_modify h holder id _
  have found (key : PropertyKey) (other : holder = Intrinsic.arrayPrototype → PropertyKey.ofString name ≠ key) :
      (((define holder name d).run h).2.object Intrinsic.arrayPrototype).properties.find? key =
        (h.object Intrinsic.arrayPrototype).properties.find? key := by
    rw [object]
    split
    · next here => rw [PropertyTable.find_insert, if_neg (other here.1)]
    · rfl
  refine ⟨⟨fun id => ?_, ?_, ?_, ?_, fun i => ?_⟩, trivial⟩
  · rw [object]
    split
    · exact fresh.bare id
    · exact fresh.bare id
  · exact (Heap.size_modify h holder _).symm ▸ fresh.known
  · rw [object]
    split
    · exact fresh.array
    · exact fresh.array
  · rw [found, fresh.length]
    intro here same
    obtain ⟨s, is, other⟩ := plain here
    exact other (PropertyKey.name.inj (is.symm.trans same))
  · rw [found, fresh.empty]
    intro here same
    obtain ⟨s, is, _⟩ := plain here
    cases is.symm.trans same

theorem keeps_new (o : Object) (plain : o.kind.isArray = false) (unmapped : o.kind.mapped = []) :
    Keeps (modifyGet fun h => h.addObject o : Setup ObjectId) apart := by
  intro h fresh
  have object (id : ObjectId) : (h.addObject o).2.object id = if id = h.objects.size then o else h.object id :=
    Heap.object_add h o id
  have other : Intrinsic.arrayPrototype ≠ h.objects.size := Nat.ne_of_lt fresh.known
  refine ⟨?_, other.symm⟩
  change (h.addObject o).2.Fresh
  refine ⟨fun id => ?_, ?_, ?_, ?_, fun i => ?_⟩
  · rw [object]
    split
    · exact ⟨fun _ => plain, unmapped⟩
    · exact fresh.bare id
  · exact Nat.lt_of_lt_of_le fresh.known (Array.size_push o ▸ Nat.le_succ _)
  · rw [object, if_neg other, fresh.array]
  · rw [object, if_neg other, fresh.length]
  · rw [object, if_neg other, fresh.empty]

theorem keeps_add (f : Builtin) : Keeps (add f) apart := by
  exact keeps_new _ rfl rfl

theorem keeps_method (holder : ObjectId) (f : Builtin)
    (plain : holder = Intrinsic.arrayPrototype → Plain f.signature.name) : Keeps (method holder f) anything := by
  exact keeps_bind _ _ apart _ (keeps_add f) fun _ _ => keeps_define _ _ _ plain

theorem keeps_constructor (f : Builtin) (prototype : ObjectId) (statics : List Builtin)
    (values : List (String × Value)) (methods : List Builtin)
    (plain : prototype = Intrinsic.arrayPrototype → ∀ g ∈ methods, Plain g.signature.name) :
    Keeps (constructor f prototype statics values methods) anything := by
  refine keeps_bind _ _ apart _ (keeps_add f) fun id other => ?_
  refine keeps_then _ _ _ (keeps_for _ _ fun _ _ => keeps_method _ _ fun same => absurd same other) ?_
  refine keeps_then _ _ _ (keeps_for _ _ fun _ _ => keeps_define _ _ _ fun same => absurd same other) ?_
  refine keeps_then _ _ _ (keeps_define _ _ _ fun same => absurd same other) ?_
  refine keeps_then _ _ _ (keeps_define _ _ _ fun _ => ⟨"constructor", rfl, by decide⟩) ?_
  refine keeps_then _ _ _ (keeps_for _ _ fun g member => keeps_method _ _ fun same => plain same g member) ?_
  exact keeps_define _ _ _ nofun

theorem keeps_error_constructor (id prototype : ObjectId) (name : String) (other : apart id)
    (other' : apart prototype) : Keeps (errorConstructor id prototype name) anything := by
  refine keeps_then _ _ _ (keeps_define _ _ _ fun same => absurd same other) ?_
  refine keeps_then _ _ _ (keeps_define _ _ _ fun same => absurd same other') ?_
  refine keeps_then _ _ _ (keeps_define _ _ _ fun same => absurd same other') ?_
  refine keeps_then _ _ _ (keeps_define _ _ _ fun same => absurd same other') ?_
  exact keeps_define _ _ _ nofun

theorem keeps_globals : Keeps globals anything := by
  refine keeps_then _ _ _ (keeps_define _ _ _ nofun) ?_
  refine keeps_then _ _ _ (keeps_define _ _ _ nofun) ?_
  refine keeps_then _ _ _ (keeps_define _ _ _ nofun) ?_
  refine keeps_then _ _ _ (keeps_define _ _ _ nofun) ?_
  refine keeps_then _ _ _ (keeps_define _ _ _ nofun) ?_
  exact keeps_for _ _ fun _ _ => keeps_method _ _ nofun

theorem keeps_arrays : Keeps arrays anything := by
  refine keeps_constructor _ _ _ _ _ fun _ g member => ?_
  obtain ⟨f, member, rfl⟩ := List.mem_map.mp member
  cases f <;> exact ⟨_, rfl, by decide⟩

theorem keeps_errors (traceLimit : Nat) : Keeps (errors traceLimit) anything := by
  refine keeps_then _ _ _ (keeps_error_constructor _ _ _ nofun nofun) ?_
  refine keeps_then _ _ _ (keeps_define _ _ _ nofun) ?_
  refine keeps_then _ _ _ (keeps_method _ _ nofun) ?_
  refine keeps_bind _ _ apart _ (keeps_add _) fun stack _ => ?_
  refine keeps_then _ _ _ (keeps_define _ _ _ nofun) ?_
  refine keeps_for _ _ fun kind _ => ?_
  refine keeps_bind _ _ apart _ (keeps_add _) fun id other => keeps_error_constructor _ _ _ other ?_
  cases kind <;> nofun

theorem keeps_console : Keeps console anything := by
  refine keeps_bind _ _ apart _ (keeps_new _ rfl rfl) fun id other => ?_
  refine keeps_then _ _ _ (keeps_method _ _ fun same => absurd same other) ?_
  refine keeps_then _ _ _ (keeps_method _ _ fun same => absurd same other) ?_
  exact keeps_define _ _ _ nofun

theorem keeps_all (traceLimit : Nat) : Keeps (all traceLimit) anything := by
  refine keeps_then _ _ _ keeps_globals ?_
  refine keeps_then _ _ _ (keeps_constructor _ _ _ _ _ nofun) ?_
  refine keeps_then _ _ _ (keeps_constructor _ _ _ _ _ nofun) ?_
  refine keeps_then _ _ _ keeps_arrays ?_
  refine keeps_then _ _ _ (keeps_constructor _ _ _ _ _ nofun) ?_
  refine keeps_then _ _ _ ?_ ?_
  · exact keeps_then _ _ _ (keeps_constructor _ _ _ _ _ nofun) (keeps_constructor _ _ _ _ _ nofun)
  · exact keeps_then _ _ _ (keeps_errors _) keeps_console

end Setup

theorem intrinsic_bare : intrinsicHeap.Bare := by
  intro id
  by_cases known : id < 17
  · interval_cases id
    all_goals exact ⟨fun special => by first | rfl | exact absurd rfl special, rfl⟩
  · have unknown : ¬ id < intrinsicHeap.objects.size := known
    rw [Heap.object_unknown _ id unknown]
    exact ⟨fun _ => rfl, rfl⟩

theorem create_fresh (config : Config) : (Realm.create config).heap.Fresh := by
  have intrinsic : intrinsicHeap.Fresh :=
    ⟨intrinsic_bare, by decide, rfl, rfl, fun _ => Std.TreeMap.getElem?_emptyc⟩
  have fresh := (Setup.keeps_all config.traceLimit intrinsicHeap intrinsic).1
  delta Realm.create
  dsimp only
  exact fresh

theorem create_sound (config : Config) : (Realm.create config).heap.Sound := by
  exact Heap.bare_sound _ (create_fresh config).bare

end Ecma

namespace Ecma

open Ecma.Program Run

/-! Moments. -/

theorem changes_evolve (r s : Realm) (changes : r.Changes s) (sound : r.heap.Sound) : r.heap.Evolves s.heap := by
  cases changes with
  | heap h edit => exact Heap.edit_evolves r.heap h edit sound
  | beside _ heap running waiting hosts steps =>
    rw [heap]
    exact Heap.evolves_refl r.heap sound

theorem lawful_evolve (m : Moment) (lawful : m.Lawful) (sound : m.before.heap.Sound) :
    m.before.heap.Evolves m.after.heap := by
  cases lawful with
  | change r s changes => exact changes_evolve r s changes sound
  | refuse r o frames isError full =>
    refine Heap.evolves_add r.heap sound o (fun isArray => ?_) (fun i a mapped => ?_)
    · rw [isError] at isArray
      cases isArray
    · rw [isError] at mapped
      cases mapped
  | leave r =>
    obtain ⟨c, waiting, same⟩ := leave_only_contexts r
    dsimp only
    rw [same]
    exact Heap.evolves_refl r.heap sound
  | _ => exact Heap.evolves_refl _ sound

/-! What the host does with a realm. -/

-- Runs of code, and changes that leave the heap alone, one after the other, with all that happens.
inductive Visits (host : HostFunction) : Realm → List Moment → Realm → Prop
  | nil (r : Realm) : Visits host r [] r
  | run {α : Type} (x : Run α) (r s : Realm) (t t' : List Moment)
      (course : Course host boundless boundless false x r t)
      (rest : Visits host (endOf (x (machine host .resolved boundless boundless) r)) t' s) :
      Visits host r (t ++ t') s
  | beside (r r' s : Realm) (t : List Moment) (same : r'.heap = r.heap) (rest : Visits host r' t s) :
      Visits host r t s

-- The heaps of a course, with the one before it, evolve in pairs.
theorem chain_evolves (r s : Realm) (t : List Moment) (chain : Chain r t s) (sound : r.heap.Sound) :
    r.heap.Evolves s.heap ∧ (∀ m ∈ t, r.heap.Evolves m.after.heap ∧ m.after.heap.Keeps s.heap) ∧
      t.Pairwise fun m n => m.after.heap.Keeps n.after.heap := by
  induction chain with
  | nil r => exact ⟨Heap.evolves_refl r.heap sound, fun m member => absurd member List.not_mem_nil, .nil⟩
  | cons m t s lawful rest hyp =>
    have first := lawful_evolve m lawful sound
    obtain ⟨last, each, pairs⟩ := hyp first.sound
    refine ⟨Heap.evolves_trans _ _ _ first last, fun n member => ?_, .cons (fun n later => ?_) pairs⟩
    · rcases List.mem_cons.mp member with rfl | later
      · exact ⟨first, last.keeps⟩
      · exact ⟨Heap.evolves_trans _ _ _ first (each n later).1, (each n later).2⟩
    · exact (each n later).1.keeps

theorem visits_evolve (host : HostFunction) (r s : Realm) (t : List Moment) (visits : Visits host r t s)
    (sound : r.heap.Sound) :
    r.heap.Evolves s.heap ∧ (∀ m ∈ t, r.heap.Evolves m.after.heap ∧ m.after.heap.Keeps s.heap) ∧
      t.Pairwise fun m n => m.after.heap.Keeps n.after.heap := by
  induction visits with
  | nil r => exact chain_evolves r r [] (.nil r) sound
  | run x r s t t' course rest hyp =>
    have chain := course_chain host boundless boundless false x r t course
    obtain ⟨middle, each, pairs⟩ := chain_evolves r _ t chain sound
    obtain ⟨last, each', pairs'⟩ := hyp middle.sound
    refine ⟨Heap.evolves_trans _ _ _ middle last, fun m member => ?_, ?_⟩
    · rcases List.mem_append.mp member with early | late
      · exact ⟨(each m early).1, Heap.keeps_trans _ _ _ (each m early).2 last.keeps⟩
      · exact ⟨Heap.evolves_trans _ _ _ middle (each' m late).1, (each' m late).2⟩
    · refine List.pairwise_append.mpr ⟨pairs, pairs', fun m early n late => ?_⟩
      exact Heap.keeps_trans _ _ _ (each m early).2 (each' n late).1.keeps
  | beside r r' s t same rest hyp =>
    rw [← same] at sound ⊢
    exact hyp sound

/-! The entries of the host. -/

-- One use that a host makes of a realm.
inductive Use where
  | evaluate (text filename : String)
  | call (f this : Value) (args : List Value)
  | handler (name : String) (args : List Value)
  | global (name : String)
  | display (v : Value)
  | register (name word : String)
  | unregister (name : String)
  | takeOutput

-- The realm after a use of it.
def Use.after (host : HostFunction) (r : Realm) : Use → Realm
  | .evaluate text filename => (r.evaluateProgram host text filename).2
  | .call f this args => (r.callFunction host f this args).2
  | .handler name args => (r.callHandler host name args).2
  | .global name => (r.globalValue host name).2
  | .display v => (r.display host v).2
  | .register name word => r.register name word
  | .unregister name => r.unregister name |>.2
  | .takeOutput => r.takeOutput.2

section

variable (host : HostFunction)

theorem visits_append (r s s' : Realm) (t t' : List Moment) (first : Visits host r t s)
    (second : Visits host s t' s') : Visits host r (t ++ t') s' := by
  induction first with
  | nil r => exact second
  | run x r s t₁ t₂ course rest hyp =>
    rw [List.append_assoc]
    exact .run x r s' t₁ _ course (hyp second)
  | beside r r' s t same rest hyp => exact .beside r r' s' _ same (hyp second)

theorem visits_beside (r s : Realm) (same : s.heap = r.heap) : Visits host r [] s := by
  exact .beside r s s [] same (.nil s)

theorem display_coded (raw free moves : Bool) (v : Value) : Coded raw free moves (Realm.displayRun v) := by
  cases v with
  | object id =>
    refine coded_heap _ fun h => ?_
    split
    · exact .native _ (error_summary_native id)
    · exact .native _ (to_text_native _)
  | _ => exact .native _ (to_text_native _)

end

-- A visit after which as many contexts wait as before. It treats arrays with care and changes limits only as they
-- are asked for, unless the host may do anything uniform or may change limits itself.
def Visited (raw free : Bool) (host : HostFunction) (r s : Realm) : Prop :=
  ∃ t, Visits host r t s ∧ s.depth = r.depth ∧ (raw = false → ∀ m ∈ t, m.Regular) ∧
    (free = false → r.config.Leads t s.config ∧ ∀ m ∈ t, m.Limited host)

section

variable (raw free : Bool) (host : HostFunction)

theorem visited_beside (r s : Realm) (same : s.heap = r.heap) (depth : s.depth = r.depth)
    (config : s.config = r.config) : Visited raw free host r s := by
  exact ⟨[], visits_beside host r s same, depth, fun _ m member => absurd member List.not_mem_nil,
    fun _ => ⟨config, fun m member => absurd member List.not_mem_nil⟩⟩

theorem visited_trans (r s s' : Realm) (first : Visited raw free host r s) (second : Visited raw free host s s') :
    Visited raw free host r s' := by
  obtain ⟨t, visits, depth, regular, limited⟩ := first
  obtain ⟨t', visits', depth', regular', limited'⟩ := second
  refine ⟨t ++ t', visits_append host r s s' t t' visits visits', depth'.trans depth, fun strict m member => ?_,
    fun strict => ⟨leads_append _ _ _ t t' (limited strict).1 (limited' strict).1, fun m member => ?_⟩⟩
  · rcases List.mem_append.mp member with early | late
    · exact regular strict m early
    · exact regular' strict m late
  · rcases List.mem_append.mp member with early | late
    · exact (limited strict).2 m early
    · exact (limited' strict).2 m late

-- As many contexts wait as before, so there is nothing to unwind.
theorem visited_unwind (r s : Realm) (visited : Visited raw free host r s) : unwindTo r.depth s = s := by
  obtain ⟨_, _, depth, _⟩ := visited
  rw [unwindTo, depth, Nat.sub_self]
  rfl

variable (hosted : host.Coded raw free)
include hosted

theorem visited_run {α : Type} (x : Run α) (coded : Coded raw free false x) (r : Realm) :
    Visited raw free host r (endOf (x.on host r)) := by
  obtain ⟨t, course, account⟩ := hosted_traced raw free host hosted boundless boundless x false coded r
  have visits := Visits.run x r _ t [] course (.nil _)
  rw [List.append_nil] at visits
  exact ⟨t, visits, course_depth x t course, account.regular,
    fun strict => ⟨chain_leads r _ t (course_chain host _ _ _ x r t course), account.limited strict⟩⟩

theorem visited_display (v : Value) (r : Realm) : Visited raw free host r (Realm.display host v r).2 := by
  have visited := visited_run raw free host hosted _ (display_coded raw free false v) r
  rw [Realm.display]
  cases ended : (Realm.displayRun v).on host r with
  | ok text s =>
    rw [ended] at visited
    exact visited
  | error e s =>
    rw [ended] at visited
    dsimp only
    rw [visited_unwind raw free host r s visited]
    exact visited

theorem visited_finish (x : Run Value) (coded : Coded raw free false x) (r : Realm) :
    Visited raw free host r (Realm.finish host r.depth .resolved (x.on host r)).2 := by
  have visited := visited_run raw free host hosted x coded r
  cases ended : x.on host r with
  | ok v s =>
    rw [ended] at visited
    exact visited
  | error e s =>
    rw [ended] at visited
    have back : Visited raw free host r (unwindTo r.depth s) :=
      (visited_unwind raw free host r s visited).symm ▸ visited
    cases e with
    | thrown v =>
      exact visited_trans raw free host r _ _ back (visited_display raw free host hosted v (unwindTo r.depth s))
    | _ => exact back

theorem visited_call (f this : Value) (args : List Value) (r : Realm) :
    Visited raw free host r (r.callFunction host f this args).2 := by
  exact visited_trans raw free host r r.resetSteps _ (visited_beside raw free host r _ rfl rfl rfl)
    (visited_finish raw free host hosted _ (.native _ (call_native f this args)) r.resetSteps)

-- Each use of a realm is a run, or none, and changes beside the heap.
theorem visited_use (use : Use) (r : Realm) : Visited raw free host r (use.after host r) := by
  cases use with
  | evaluate text filename =>
    change Visited raw free host r (r.evaluateProgram host text filename).2
    delta Realm.evaluateProgram
    split
    · exact visited_beside raw free host r r rfl rfl rfl
    · exact visited_trans raw free host r r.resetSteps _ (visited_beside raw free host r _ rfl rfl rfl)
        (visited_finish raw free host hosted _ (.enter _) r.resetSteps)
  | call f this args => exact visited_call raw free host hosted f this args r
  | handler name args =>
    change Visited raw free host r (r.callHandler host name args).2
    rw [Realm.callHandler]
    split
    · split
      · exact visited_call raw free host hosted _ _ args r
      · exact visited_beside raw free host r r rfl rfl rfl
    · exact visited_beside raw free host r r rfl rfl rfl
  | global name => exact visited_finish raw free host hosted _ (.native _ (get_native _ _)) r
  | display v => exact visited_display raw free host hosted v r
  | register name word => exact visited_beside raw free host r _ rfl rfl rfl
  | unregister name => exact visited_beside raw free host r _ rfl rfl rfl
  | takeOutput => exact visited_beside raw free host r _ rfl rfl rfl

theorem visited_uses (uses : List Use) (r : Realm) :
    Visited raw free host r (uses.foldl (fun r use => use.after host r) r) := by
  induction uses generalizing r with
  | nil => exact visited_beside raw free host r r rfl rfl rfl
  | cons use rest hyp =>
    exact visited_trans raw free host r (use.after host r) _ (visited_use raw free host hosted use r) (hyp _)

end

theorem visits_uses (host : HostFunction) (allowed : host.Public) (uses : List Use) (r : Realm) :
    ∃ t, Visits host r t (uses.foldl (fun r use => use.after host r) r) := by
  obtain ⟨t, visits, _⟩ := visited_uses true true host (public_host_coded host allowed) uses r
  exact ⟨t, visits⟩

-- However a host uses a realm, each state on the way keeps all that is locked in an earlier one.
theorem locked_for_ever (host : HostFunction) (allowed : host.Public) (config : Config) :
    (∀ uses : List Use, ∃ t, Visits host (Realm.create config) t
      (uses.foldl (fun r use => use.after host r) (Realm.create config))) ∧
      ∀ t s, Visits host (Realm.create config) t s →
        (Realm.create config).heap.Keeps s.heap ∧
        (∀ m ∈ t, (Realm.create config).heap.Keeps m.after.heap ∧ m.after.heap.Keeps s.heap) ∧
        t.Pairwise fun m n => m.after.heap.Keeps n.after.heap := by
  refine ⟨fun uses => visits_uses host allowed uses _, fun t s visits => ?_⟩
  obtain ⟨last, each, pairs⟩ := visits_evolve host _ s t visits (create_sound config)
  exact ⟨last.keeps, fun m member => ⟨(each m member).1.keeps, (each m member).2⟩, pairs⟩

-- A realm of the usual settings, in the hands of a host that only calls back.
theorem locked_for_ever_calling_back :
    callingHost.Public ∧ (∀ uses : List Use, ∃ t, Visits callingHost (Realm.create {}) t
      (uses.foldl (fun r use => use.after callingHost r) (Realm.create {}))) ∧
      ∀ t s, Visits callingHost (Realm.create {}) t s →
        (Realm.create {}).heap.Keeps s.heap ∧
        (∀ m ∈ t, (Realm.create {}).heap.Keeps m.after.heap ∧ m.after.heap.Keeps s.heap) ∧
        t.Pairwise fun m n => m.after.heap.Keeps n.after.heap := by
  exact ⟨calling_host_public, locked_for_ever callingHost calling_host_public {}⟩

end Ecma

/-!
Arrays are well formed in every state of a realm. The length is a hidden and permanent number that fits a word
and is above all elements, with two exceptions. The length of `Array.prototype` is made configurable; and a new
length is compared with the one that was read before its conversion, so that an array that is changed by the
conversion may keep elements above its length.
-/

namespace Ecma

open Ecma.Program Run

-- What cannot be told from the kind of a change: that arrays have no more elements than there are indices.
def Moment.Sized (m : Moment) : Prop :=
  m.after.heap.Indexed ∧
    ∀ items, m.after.heap = (m.before.heap.addObject (.ofItems items)).2 → items.length < Number.wordCount

-- One of the two exceptions.
def Moment.Spoils (m : Moment) (id : ObjectId) : Prop :=
  m.before.heap.Loosened m.after.heap id ∨ m.before.heap.Outgrown m.after.heap id

-- The heap after some moments.
def heapAfter (h : Heap) : List Moment → Heap
  | [] => h
  | m :: t => heapAfter m.after.heap t

-- The arrays of a heap, some of which are known to have escaped the exceptions.
structure Heap.Arrays (h : Heap) (escaped : ObjectId → Prop) : Prop where
  indexed : h.Indexed
  length : ∀ id, h.isArray id = true → id ≠ Intrinsic.arrayPrototype → ∃ n, h.HasLength id n
  formed : ∀ id, h.isArray id = true → escaped id → h.WellFormed id

-- The heaps of moments, each starting where the one before ends.
def Linked (h : Heap) : List Moment → Prop
  | [] => True
  | m :: t => m.before.heap = h ∧ Linked m.after.heap t

theorem linked_append (h : Heap) (t t' : List Moment) (first : Linked h t) (second : Linked (heapAfter h t) t') :
    Linked h (t ++ t') := by
  induction t generalizing h with
  | nil => exact second
  | cons m t hyp => exact ⟨first.1, hyp _ first.2 second⟩

theorem heap_after_append (h : Heap) (t t' : List Moment) :
    heapAfter h (t ++ t') = heapAfter (heapAfter h t) t' := by
  induction t generalizing h with
  | nil => rfl
  | cons m t hyp => exact hyp _

theorem chain_linked (r s : Realm) (t : List Moment) (chain : Chain r t s) :
    Linked r.heap t ∧ heapAfter r.heap t = s.heap := by
  induction chain with
  | nil r => exact ⟨trivial, rfl⟩
  | cons m t s lawful rest hyp => exact ⟨⟨rfl, hyp.1⟩, hyp.2⟩

theorem visits_linked (host : HostFunction) (r s : Realm) (t : List Moment) (visits : Visits host r t s) :
    Linked r.heap t ∧ heapAfter r.heap t = s.heap := by
  induction visits with
  | nil r => exact ⟨trivial, rfl⟩
  | run x r s t t' course rest hyp =>
    obtain ⟨linked, last⟩ := chain_linked _ _ t (course_chain host boundless boundless false x r t course)
    rw [← last] at hyp
    exact ⟨linked_append _ t t' linked hyp.1, (heap_after_append _ t t').trans hyp.2⟩
  | beside r r' s t same rest hyp => rwa [same] at hyp

theorem moment_arrays (m : Moment) (regular : m.Regular) (sized : m.Sized) (escaped : ObjectId → Prop)
    (arrays : m.before.heap.Arrays escaped) : m.after.heap.Arrays fun id => escaped id ∧ ¬ m.Spoils id := by
  have each (id : ObjectId) (isArray : m.after.heap.isArray id = true) :
      m.before.heap.isArray id = false ∧ m.after.heap.WellFormed id ∨ m.before.heap.isArray id = true ∧
        ∀ n, m.before.heap.HasLength id n → m.before.heap.Steps m.after.heap id n := by
    rcases regular with same | regular
    · rw [same] at isArray ⊢
      have before := (Heap.is_array_kind _ id).symm.trans isArray
      exact .inr ⟨isArray, fun n has => Heap.steps_same _ _ id before n has rfl⟩
    · exact Heap.regular_steps _ _ regular arrays.indexed sized.1 sized.2 id isArray
  refine ⟨sized.1, fun id isArray special => ?_, fun id isArray whole => ?_⟩
  · rcases each id isArray with ⟨_, n, has, _⟩ | ⟨before, steps⟩
    · exact ⟨n, has⟩
    · obtain ⟨n, has⟩ := arrays.length id before special
      exact (steps n has).length special
  · rcases each id isArray with ⟨_, formed⟩ | ⟨before, steps⟩
    · exact formed
    · obtain ⟨n, has, covers⟩ := arrays.formed id before whole.1
      exact (steps n has).covers covers (fun loosened => whole.2 (.inl loosened)) fun outgrown => whole.2 (.inr outgrown)

theorem linked_arrays (h : Heap) (early late : List Moment) (escaped : ObjectId → Prop) (arrays : h.Arrays escaped)
    (linked : Linked h (early ++ late)) (each : ∀ m ∈ early, m.Regular ∧ m.Sized) :
    (heapAfter h early).Arrays fun id => escaped id ∧ ∀ m ∈ early, ¬ m.Spoils id := by
  induction early generalizing h escaped with
  | nil => exact ⟨arrays.indexed, arrays.length, fun id isArray whole => arrays.formed id isArray whole.1⟩
  | cons m early hyp =>
    obtain ⟨regular, sized⟩ := each m List.mem_cons_self
    have next := moment_arrays m regular sized escaped (linked.1 ▸ arrays)
    have rest := hyp _ _ next linked.2 fun n member => each n (List.mem_cons_of_mem m member)
    refine ⟨rest.indexed, rest.length, fun id isArray whole => rest.formed id isArray ⟨⟨whole.1, ?_⟩, fun n member => ?_⟩⟩
    · exact whole.2 m List.mem_cons_self
    · exact whole.2 n (List.mem_cons_of_mem m member)

theorem create_arrays (config : Config) : (Realm.create config).heap.Arrays fun _ => True := by
  have fresh := create_fresh config
  have only (id : ObjectId) (isArray : (Realm.create config).heap.isArray id = true) : id = Intrinsic.arrayPrototype := by
    by_contra other
    rw [Heap.is_array_kind, (fresh.bare id).1 other] at isArray
    cases isArray
  have none (n : Nat) : (Realm.create config).heap.Covers Intrinsic.arrayPrototype n := by
    intro i d found
    rw [Heap.array_own _ _ _ fresh.array, fresh.empty i] at found
    cases found
  have length : (Realm.create config).heap.HasLength Intrinsic.arrayPrototype 0 := by
    refine (Heap.has_length_measured _ _ fresh.array 0).mpr ⟨true, true, ⟨by decide, ?_⟩, fun _ => rfl⟩
    rw [fresh.length, Number.zero_whole]
    rfl
  refine ⟨fun id isArray => ?_, fun id isArray special => absurd (only id isArray) special, fun id isArray _ => ?_⟩
  · obtain rfl := only id isArray
    exact none _
  · obtain rfl := only id isArray
    exact ⟨0, length, none _⟩

-- However a host uses a realm, the arrays are well formed in each state on the way, up to the exceptions.
theorem arrays_well_formed (host : HostFunction) (hosted : host.Coded false true) (config : Config) :
    (∀ uses : List Use, ∃ t, Visits host (Realm.create config) t
      (uses.foldl (fun r use => use.after host r) (Realm.create config)) ∧ ∀ m ∈ t, m.Regular) ∧
      (Realm.create config).heap.own? Intrinsic.arrayPrototype .length = some (.data (.number 0.0) true false true) ∧
      ∀ t s, Visits host (Realm.create config) t s → (∀ m ∈ t, m.Regular ∧ m.Sized) →
        heapAfter (Realm.create config).heap t = s.heap ∧
        ∀ early late, t = early ++ late → ∀ id, (heapAfter (Realm.create config).heap early).isArray id = true →
          (id ≠ Intrinsic.arrayPrototype → ∃ n, (heapAfter (Realm.create config).heap early).HasLength id n) ∧
          ((∀ m ∈ early, ¬ m.Spoils id) → (heapAfter (Realm.create config).heap early).WellFormed id) := by
  have fresh := create_fresh config
  refine ⟨fun uses => ?_, ?_, fun t s visits each => ?_⟩
  · obtain ⟨t, visits, _, regular, _⟩ := visited_uses false true host hosted uses (Realm.create config)
    exact ⟨t, visits, regular rfl⟩
  · rw [Heap.array_own _ _ _ fresh.array, fresh.length]
    rfl
  · obtain ⟨linked, last⟩ := visits_linked host _ s t visits
    refine ⟨last, fun early late is id isArray => ?_⟩
    rw [is] at linked
    have arrays := linked_arrays _ early late _ (create_arrays config) linked fun m member =>
      each m (is ▸ List.mem_append_left late member)
    exact ⟨arrays.length id isArray, fun escaped => arrays.formed id isArray ⟨trivial, escaped⟩⟩

theorem arrays_well_formed_calling_back :
    callingHost.Coded false true ∧
      (∀ uses : List Use, ∃ t, Visits callingHost (Realm.create {}) t
        (uses.foldl (fun r use => use.after callingHost r) (Realm.create {})) ∧ ∀ m ∈ t, m.Regular) ∧
      (Realm.create {}).heap.own? Intrinsic.arrayPrototype .length = some (.data (.number 0.0) true false true) ∧
      ∀ t s, Visits callingHost (Realm.create {}) t s → (∀ m ∈ t, m.Regular ∧ m.Sized) →
        heapAfter (Realm.create {}).heap t = s.heap ∧
        ∀ early late, t = early ++ late → ∀ id, (heapAfter (Realm.create {}).heap early).isArray id = true →
          (id ≠ Intrinsic.arrayPrototype → ∃ n, (heapAfter (Realm.create {}).heap early).HasLength id n) ∧
          ((∀ m ∈ early, ¬ m.Spoils id) → (heapAfter (Realm.create {}).heap early).WellFormed id) := by
  have hosted : callingHost.Coded false true := fun _ _ _ => .native _ (call_native _ _ _)
  exact ⟨hosted, arrays_well_formed callingHost hosted {}⟩

end Ecma
