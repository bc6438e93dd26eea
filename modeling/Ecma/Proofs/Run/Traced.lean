import Ecma.Proofs.Heap.Pieces
import Ecma.Proofs.Run.Coded
import Ecma.Proofs.Run.Course

set_option autoImplicit false

/-!
Runs that have a course, and what is known of its moments: arrays are treated with care, the limits are left
alone, and the bounds of the machine are reached only after so many rounds or in so many contexts. What is
coded has such a course, if entering code has.
-/

namespace Ecma

open Ecma.Program Run

/-! What is known of moments. -/

def Moment.Regular (m : Moment) : Prop :=
  m.after.heap = m.before.heap ∨ m.before.heap.Regular m.after.heap

-- The limits stay, the count of steps does not go back, and nobody hides that a bound has been reached.
structure Moment.Steady (m : Moment) : Prop where
  config : m.after.config = m.before.config
  steps : m.before.steps ≤ m.after.steps
  passes : m.kind ≠ .rescue .stepsExceeded ∧ m.kind ≠ .rescue .exhausted

-- An activation of the function that changes limits begins.
def Moment.SetsLimits (m : Moment) : Prop :=
  m.kind = .enter ∧ ∃ f, m.after.running.function = some f ∧
    m.after.heap.callable? f = some (.builtin (.global .setSystemProperty))

def Moment.isCount (m : Moment) : Bool :=
  match m.kind with
  | .count => true
  | _ => false

-- How many steps are counted.
def counts (t : List Moment) : Nat :=
  t.countP Moment.isCount

-- A bound of the machine is reached only after so many steps or in so many contexts.
def Spent (floor : Nat) : Nat → List Moment → Prop
  | _, [] => True
  | rounds, m :: t => (m.kind = .exhaust → rounds = 0 ∨ floor ≤ 2 * m.before.depth) ∧
      Spent floor (if m.isCount then rounds - 1 else rounds) t

theorem spent_less (floor floor' rounds rounds' : Nat) (t : List Moment) (fewer : rounds' ≤ rounds)
    (lower : floor' ≤ floor) (spent : Spent floor rounds t) : Spent floor' rounds' t := by
  induction t generalizing rounds rounds' with
  | nil => trivial
  | cons m t hyp =>
    refine ⟨fun exhausted => ?_, ?_⟩
    · rcases spent.1 exhausted with none | deep
      · exact .inl (by omega)
      · exact .inr (Nat.le_trans lower deep)
    · refine hyp _ _ ?_ spent.2
      split <;> omega

theorem spent_append (floor rounds : Nat) (t t' : List Moment) (first : Spent floor rounds t)
    (second : Spent floor (rounds - counts t) t') : Spent floor rounds (t ++ t') := by
  induction t generalizing rounds with
  | nil => exact second
  | cons m t hyp =>
    refine ⟨first.1, hyp _ first.2 ?_⟩
    rw [counts, List.countP_cons] at second
    rw [counts]
    split
    · next counted =>
      rw [if_pos counted] at second
      rwa [Nat.sub_sub, Nat.add_comm]
    · next other =>
      rwa [if_neg other] at second

structure Account (host : HostFunction) (raw free : Bool) (rounds floor : Nat) (t : List Moment) : Prop where
  regular : raw = false → ∀ m ∈ t, m.Regular
  steady : free = false → (∀ m ∈ t, ¬ m.SetsLimits) → ∀ m ∈ t, m.Steady
  limited : free = false → ∀ m ∈ t, m.Limited host
  spent : Spent floor rounds t

section

variable {host : HostFunction} {raw free : Bool} {rounds floor : Nat}

theorem account_nil : Account host raw free rounds floor [] := by
  exact ⟨fun _ m member => absurd member List.not_mem_nil, fun _ _ m member => absurd member List.not_mem_nil,
    fun _ m member => absurd member List.not_mem_nil, trivial⟩

theorem account_single (m : Moment) (regular : raw = false → m.Regular)
    (steady : free = false → ¬ m.SetsLimits → m.Steady) (limited : free = false → m.Limited host)
    (spent : m.kind = .exhaust → rounds = 0 ∨ floor ≤ 2 * m.before.depth) :
    Account host raw free rounds floor [m] := by
  refine ⟨fun strict n member => ?_, fun strict quiet n member => ?_, fun strict n member => ?_, spent, trivial⟩
  · cases List.mem_singleton.mp member
    exact regular strict
  · cases List.mem_singleton.mp member
    exact steady strict (quiet m List.mem_cons_self)
  · cases List.mem_singleton.mp member
    exact limited strict

-- A moment that leaves the heap, the limits and the count alone.
theorem account_aside (m : Moment) (heap : m.after.heap = m.before.heap) (config : m.after.config = m.before.config)
    (steps : m.before.steps ≤ m.after.steps) (more : m.kind ≠ .exhaust)
    (passes : m.kind ≠ .rescue .stepsExceeded ∧ m.kind ≠ .rescue .exhausted) : Account host raw free rounds floor [m] := by
  exact account_single m (fun _ => .inl heap) (fun _ _ => ⟨config, steps, passes⟩) (fun _ => .inl config)
    fun exhausted => absurd exhausted more

theorem account_after (t t' : List Moment) (first : Account host raw free rounds floor t)
    (second : Account host raw free (rounds - counts t) floor t') : Account host raw free rounds floor (t ++ t') := by
  refine ⟨fun strict m member => ?_, fun strict quiet m member => ?_, fun strict m member => ?_, ?_⟩
  · rcases List.mem_append.mp member with early | late
    · exact first.regular strict m early
    · exact second.regular strict m late
  · rcases List.mem_append.mp member with early | late
    · exact first.steady strict (fun n here => quiet n (List.mem_append_left _ here)) m early
    · exact second.steady strict (fun n here => quiet n (List.mem_append_right _ here)) m late
  · rcases List.mem_append.mp member with early | late
    · exact first.limited strict m early
    · exact second.limited strict m late
  · exact spent_append _ _ _ _ first.spent second.spent

theorem account_less (rounds' floor' : Nat) (t : List Moment) (fewer : rounds' ≤ rounds) (lower : floor' ≤ floor)
    (account : Account host raw free rounds floor t) : Account host raw free rounds' floor' t := by
  exact ⟨account.regular, account.steady, account.limited, spent_less _ _ _ _ t fewer lower account.spent⟩

theorem account_append (t t' : List Moment) (first : Account host raw free rounds floor t)
    (second : Account host raw free rounds floor t') : Account host raw free rounds floor (t ++ t') := by
  exact account_after t t' first (account_less _ _ t' (Nat.sub_le _ _) (Nat.le_refl _) second)

theorem account_cons (m : Moment) (t : List Moment) (first : Account host raw free rounds floor [m])
    (second : Account host raw free rounds floor t) : Account host raw free rounds floor (m :: t) := by
  exact account_append [m] t first second

end

/-! Runs that have a course. -/

def Traced (raw free : Bool) (host : HostFunction) (rounds d floor : Nat) (moves : Bool) {α : Type} (x : Run α)
    (r : Realm) : Prop :=
  ∃ t, Course host rounds d moves x r t ∧ Account host raw free rounds floor t

section

variable {raw free : Bool} {host : HostFunction} {rounds d floor : Nat} {moves : Bool} {α β σ : Type} {r : Realm}

theorem traced_less (floor' : Nat) (x : Run α) (lower : floor' ≤ floor)
    (traced : Traced raw free host rounds d floor moves x r) : Traced raw free host rounds d floor' moves x r := by
  obtain ⟨t, course, account⟩ := traced
  exact ⟨t, course, account_less _ _ t (Nat.le_refl _) lower account⟩

-- Limits may change in the course of a run, but only as they are asked for.
def Relimited (raw free free' : Bool) (host : HostFunction) (rounds d floor : Nat) (moves : Bool) {α : Type}
    (x : Run α) (r : Realm) : Prop :=
  ∃ t, Course host rounds d moves x r t ∧ Account host raw free' rounds floor t ∧
    (free = false → ∀ m ∈ t, m.Limited host)

theorem traced_relimited (x : Run α) (traced : Traced raw free host rounds d floor moves x r) :
    Relimited raw free free host rounds d floor moves x r := by
  obtain ⟨t, course, account⟩ := traced
  exact ⟨t, course, account, account.limited⟩

theorem course_depth (x : Run α) (t : List Moment) (course : Course host rounds d moves x r t) :
    (endOf (x (machine host .resolved rounds d) r)).depth = r.depth := by
  exact congrArg List.length (course_balanced host rounds d moves x r t course).waiting

theorem traced_pure (a : α) : Traced raw free host rounds d floor moves (pure a) r := by
  exact ⟨_, .pure d moves a r, account_nil⟩

theorem traced_thrown (v : Value) : Traced raw free host rounds d floor moves (throw (.thrown v) : Run α) r := by
  exact ⟨_, .thrown d moves v r, account_nil⟩

-- What follows starts in as many contexts as the first part.
theorem traced_given (x : Run α) (f : α → Run β) (first : Traced raw free host rounds d floor moves x r)
    (second : ∀ a s, x (machine host .resolved rounds d) r = .ok a s → s.depth = r.depth →
      Traced raw free host rounds d floor moves (f a) s) : Traced raw free host rounds d floor moves (x >>= f) r := by
  obtain ⟨t, course, account⟩ := first
  have depth := course_depth x t course
  cases ended : x (machine host .resolved rounds d) r with
  | ok a s =>
    rw [ended] at depth
    obtain ⟨t', rest, account'⟩ := second a s ended depth
    exact ⟨_, .bind d moves x f r s a t t' course ended rest, account_append t t' account account'⟩
  | error e s => exact ⟨t, .broken d moves x f r s e t course ended, account⟩

theorem traced_bind (x : Run α) (f : α → Run β) (first : Traced raw free host rounds d floor moves x r)
    (second : ∀ a s, s.depth = r.depth → Traced raw free host rounds d floor moves (f a) s) :
    Traced raw free host rounds d floor moves (x >>= f) r := by
  exact traced_given x f first fun a s _ => second a s

theorem traced_look (f : Realm → Run α) (rest : Traced raw free host rounds d floor moves (f r) r) :
    Traced raw free host rounds d floor moves (MonadState.get >>= f) r := by
  refine traced_given _ f ⟨_, .get d moves r, account_nil⟩ fun s s' ended _ => ?_
  cases ended
  exact rest

theorem traced_heap (f : Heap → Run α) (rest : Traced raw free host rounds d floor moves (f r.heap) r) :
    Traced raw free host rounds d floor moves (heap >>= f) r := by
  exact traced_look (fun s => f s.heap) rest

theorem traced_found (v : Variable) (strict : Bool) : Traced raw free host rounds d floor moves (placeOf v strict) r := by
  exact ⟨_, .found d moves v strict r, account_nil⟩

theorem traced_ite (c : Prop) [Decidable c] (x y : Run α) (yes : Traced raw free host rounds d floor moves x r)
    (no : Traced raw free host rounds d floor moves y r) :
    Traced raw free host rounds d floor moves (if c then x else y) r := by
  split
  · exact yes
  · exact no

/-! Changes. -/

theorem traced_edit (f : Heap → α × Heap) (edit : Heap.Edit r.heap (f r.heap).2)
    (regular : raw = false → r.heap.Regular (f r.heap).2) :
    Traced raw free host rounds d floor moves (updateHeap f) r := by
  refine ⟨_, .change d moves (fun s => ((f s.heap).1, s.withHeap (f s.heap).2)) r (.heap r _ edit), ?_⟩
  exact account_single _ (fun strict => .inr (regular strict)) (fun _ _ => ⟨rfl, Nat.le_refl _, nofun, nofun⟩)
    (fun _ => .inl rfl) fun exhausted => by cases exhausted

theorem traced_update (f : Heap → α × Heap) (regular : r.heap.Regular (f r.heap).2) :
    Traced raw free host rounds d floor moves (updateHeap f) r := by
  exact traced_edit f (Heap.regular_edit _ _ regular) fun _ => regular

theorem traced_modify_heap (f : Heap → Heap) (regular : r.heap.Regular (f r.heap)) :
    Traced raw free host rounds d floor moves (modifyHeap f) r := by
  exact traced_update (fun h => (PUnit.unit, f h)) regular

theorem traced_bare_object (kind : ObjectKind) (prototype : Option ObjectId) (properties : PropertyTable)
    (bare : kind.isBare = true) : Traced raw free host rounds d floor moves (newObject kind prototype properties) r := by
  cases kind with
  | array => cases bare
  | arguments mapped => cases bare
  | _ => exact traced_update _ (.object _ _ rfl fun i a mapped => by cases mapped)

theorem traced_array (items : List (Option Value)) :
    Traced raw free host rounds d floor moves (newSparseArray items) r := by
  have made : newSparseArray items = updateHeap fun h => h.addObject (.ofItems items) := by
    rfl
  rw [made]
  exact traced_update _ (.array _ items)

theorem traced_environment (record : EnvironmentRecord) (outer : Option EnvironmentId) :
    Traced raw free host rounds d floor moves (newEnvironment record outer) r := by
  exact traced_update _ (.environment _ _)

theorem traced_define (id : ObjectId) (key : PropertyKey) (d' : Definition) (other : Run α) (k : Bool → Run α)
    (oneKind : d'.OneKind) (otherwise : Traced raw free host rounds d floor moves other r)
    (after : ∀ accepted s, s.depth = r.depth → Traced raw free host rounds d floor moves (k accepted) s) :
    Traced raw free host rounds d floor moves (heap >>= fun h =>
      if h.isArray id && key == .length && d'.value.isSome then other
      else updateHeap (fun h => h.define id key d') >>= k) r := by
  refine traced_heap _ ?_
  by_cases length : (r.heap.isArray id && key == .length && d'.value.isSome) = true
  · rw [if_pos length]
    exact otherwise
  · rw [if_neg length]
    refine traced_bind _ _ (traced_update _ (.define _ id key d' oneKind fun isArray isLength => ?_)) after
    simpa [isArray, isLength] using length

theorem traced_beside (f : Realm → Realm) (outward : Outward f) (kept : free = false → KeepsLimits f) :
    Traced raw free host rounds d floor moves (modify f) r := by
  refine ⟨_, .change d moves (fun s => (PUnit.unit, f s)) r
    (.beside r _ (outward.heap r) (outward.running r) (outward.waiting r) (outward.hosts r) (outward.steps r)), ?_⟩
  refine account_single _ (fun _ => .inl (outward.heap r)) (fun strict _ => ?_) (fun strict => .inl (kept strict r).1)
    fun exhausted => by cases exhausted
  obtain ⟨config, steps⟩ := kept strict r
  exact ⟨config, Nat.le_of_eq steps.symm, nofun, nofun⟩

theorem traced_place (f : Context → Context) (same : r.running.SameCode (f r.running)) :
    Traced raw free host rounds d floor true (modifyRunning f) r := by
  exact ⟨_, .place d f r same, account_aside _ rfl rfl (Nat.le_refl _) nofun ⟨nofun, nofun⟩⟩

/-! Functions and errors. -/

-- An object that was made before the latest one is still there.
theorem new_function_object (h : Heap) (o prototype : Object) :
    ((h.addObject o).2.addObject prototype).2.object h.objects.size = o := by
  rw [Heap.object_add, Heap.object_add, if_pos rfl, if_neg]
  change h.objects.size ≠ (h.objects.push o).size
  rw [Array.size_push]
  exact Nat.ne_of_lt (Nat.lt_succ_self _)

-- The rest of the properties of a function are appended to those it is made with.
theorem traced_function (routine : Routine) (scope : EnvironmentId) :
    Traced raw free host rounds d floor moves (newFunction routine scope) r := by
  refine traced_given _ _ (traced_update _ (.object _ _ rfl fun i a mapped => by cases mapped)) fun f s made _ => ?_
  cases made
  refine traced_given _ _ (traced_bare_object _ _ _ rfl) fun prototype s made _ => ?_
  cases made
  refine traced_bind _ _ (traced_modify_heap _ (.append _ _ _ ?_ ?_)) fun _ _ _ => traced_pure _
  · exact congrArg (fun o : Object => o.kind.callable?.isSome) (new_function_object r.heap _ _)
  · exact congrArg Object.extensible (new_function_object r.heap _ _)

theorem traced_error (kind : ErrorKind) (message : String) :
    Traced raw free host rounds d floor moves (Run.throwError kind message : Run α) r := by
  refine traced_bind _ _ ?_ fun _ _ _ => traced_thrown _
  exact traced_look _ (traced_bare_object _ _ _ rfl)

theorem traced_parsed (text : String) (result : Except Syntax.SyntaxError Syntax.Parsed) :
    Traced raw free host rounds d floor moves (parsedOr text result) r := by
  cases result with
  | ok parsed => exact traced_pure parsed
  | error e => exact traced_error _ _

theorem traced_function_of_texts (texts : List String) :
    Traced raw free host rounds d floor moves (newFunctionOfTexts texts) r := by
  refine traced_look _ ?_
  exact traced_bind _ _ (traced_parsed _ _) fun _ _ _ => traced_function _ _

/-! Steps and contexts. -/

theorem traced_step : Traced raw free host rounds d floor moves step r := by
  by_cases room : ∀ limit, r.config.stepsLimit = some limit → r.steps < limit
  · exact ⟨_, .count d moves r room, account_aside _ rfl rfl (Nat.le_succ _) nofun ⟨nofun, nofun⟩⟩
  · obtain ⟨limit, exceeded⟩ := not_forall.mp room
    obtain ⟨limited, exceeded⟩ := Classical.not_imp.mp exceeded
    exact ⟨_, .exceed d moves r limit limited (Nat.not_lt.mp exceeded), account_aside _ rfl rfl (Nat.le_succ _) nofun ⟨nofun, nofun⟩⟩

theorem leave_keeps (r : Realm) : (leaveContext r).heap = r.heap ∧ (leaveContext r).config = r.config ∧
    (leaveContext r).steps = r.steps := by
  rw [leaveContext]
  split <;> exact ⟨rfl, rfl, rfl⟩

-- In the body of the function that changes limits nothing has to be steady.
theorem traced_context (c : Context) (run : Run α) (free' : Bool)
    (limits : free = false → free' = true → (⟨r, .enter, r.entering c⟩ : Moment).SetsLimits)
    (body : Relimited raw free free' host rounds d floor true run (r.entering c)) :
    Traced raw free host rounds d floor moves (inContext c run) r := by
  by_cases room : r.depth < r.config.depthLimit
  · obtain ⟨t, course, account, limited⟩ := body
    refine ⟨_, .context d moves c run r t room course, ?_⟩
    obtain ⟨heap, config, steps⟩ := leave_keeps (endOf (run (machine host .resolved rounds d) (r.entering c)))
    have first : Account host raw true rounds floor [⟨r, .enter, r.entering c⟩] :=
      account_aside _ rfl rfl (Nat.le_refl _) nofun ⟨nofun, nofun⟩
    have last : Account host raw free' rounds floor
        [⟨endOf (run (machine host .resolved rounds d) (r.entering c)), .leave,
          leaveContext (endOf (run (machine host .resolved rounds d) (r.entering c)))⟩] :=
      account_aside _ heap config (Nat.le_of_eq steps.symm) nofun ⟨nofun, nofun⟩
    have inside := account_append t _ account last
    refine ⟨fun strict m member => ?_, fun strict quiet m member => ?_, fun strict m member => ?_, ?_⟩
    · rcases List.mem_cons.mp member with rfl | inner
      · exact .inl rfl
      · exact inside.regular strict m inner
    · rcases List.mem_cons.mp member with rfl | inner
      · exact ⟨rfl, Nat.le_refl _, nofun, nofun⟩
      · cases free' with
        | true => exact absurd (limits strict rfl) (quiet _ List.mem_cons_self)
        | false => exact inside.steady rfl (fun n here => quiet n (List.mem_cons_of_mem _ here)) m inner
    · rcases List.mem_cons.mp member with rfl | inner
      · exact .inl rfl
      rcases List.mem_append.mp inner with inner | leaving
      · exact limited strict m inner
      · cases List.mem_singleton.mp leaving
        exact .inl config
    · exact ⟨nofun, inside.spent⟩
  · refine ⟨_, .refuse d moves c run r _ _ (Nat.not_lt.mp room) (new_error_at _ _ _ _), ?_⟩
    refine account_single _ (fun _ => .inr ?_) (fun _ _ => ⟨rfl, Nat.le_refl _, nofun, nofun⟩) (fun _ => .inl rfl)
      fun exhausted => by cases exhausted
    exact .object _ _ rfl fun i a mapped => by cases mapped

theorem traced_within (env : EnvironmentId) (run : Run α)
    (body : Traced raw free host rounds d floor true run (r.withRunning { r.running with lexicalEnv := env })) :
    Traced raw free host rounds d floor true (inEnvironment env run) r := by
  obtain ⟨t, course, account⟩ := body
  refine ⟨_, .within d env run r _ t course rfl, account_cons _ _ ?_ (account_append _ _ account ?_)⟩
  · exact account_aside _ rfl rfl (Nat.le_refl _) nofun ⟨nofun, nofun⟩
  · exact account_aside _ rfl rfl (Nat.le_refl _) nofun ⟨nofun, nofun⟩

theorem traced_catching (block : Run Completion) (handler : Value → Run Completion)
    (body : Traced raw free host rounds d floor moves block r)
    (rest : ∀ v s, s.depth = r.depth → Traced raw free host rounds d floor moves (handler v) s) :
    Traced raw free host rounds d floor moves (catching block handler) r := by
  obtain ⟨t, course, account⟩ := body
  by_cases thrown : ∃ v s, block (machine host .resolved rounds d) r = .error (.thrown v) s
  · obtain ⟨v, s, ended⟩ := thrown
    have depth := course_depth block t course
    rw [ended] at depth
    obtain ⟨t', course', account'⟩ := rest v s depth
    refine ⟨_, .caught d moves block handler r s v t t' course ended course', account_append _ _ account ?_⟩
    exact account_cons _ _ (account_aside _ rfl rfl (Nat.le_refl _) nofun ⟨nofun, nofun⟩) account'
  · exact ⟨t, .uncaught d moves block handler r t course fun v s ended => thrown ⟨v, s, ended⟩, account⟩

theorem traced_finally (block finalizer : Run Completion) (body : Traced raw free host rounds d floor moves block r)
    (rest : ∀ s, s.depth = r.depth → Traced raw free host rounds d floor moves finalizer s) :
    Traced raw free host rounds d floor moves (thenFinally block finalizer) r := by
  obtain ⟨t, course, account⟩ := body
  cases visible : signalOf (block (machine host .resolved rounds d) r) with
  | some e => exact ⟨t, .unfinished d moves block finalizer r e t course visible, account⟩
  | none =>
    obtain ⟨t', course', account'⟩ := rest _ (course_depth block t course)
    refine ⟨_, .finished d moves block finalizer r _ t t' course visible rfl course', account_append _ _ account ?_⟩
    exact account_cons _ _ (account_aside _ rfl rfl (Nat.le_refl _) nofun ⟨nofun, nofun⟩) account'

theorem traced_rescuing (block : Run α) (handler : Interrupt → Option (Run α))
    (passes : free = true ∨ handler .stepsExceeded = none ∧ handler .exhausted = none)
    (body : Traced raw free host rounds d floor moves block r)
    (each : ∀ e x s, handler e = some x → s.depth = r.depth → Traced raw free host rounds d floor moves x s) :
    Traced raw free host rounds d floor moves (rescuing block handler) r := by
  obtain ⟨t, course, account⟩ := body
  have depth := course_depth block t course
  cases ended : block (machine host .resolved rounds d) r with
  | ok a s =>
    refine ⟨t, .passed d moves block handler r t course fun e s' failed => ?_, account⟩
    cases ended.symm.trans failed
  | error e s =>
    rw [ended] at depth
    cases taken : handler e with
    | none =>
      refine ⟨t, .passed d moves block handler r t course fun e' s' failed => ?_, account⟩
      cases ended.symm.trans failed
      exact taken
    | some x =>
      obtain ⟨t', course', account'⟩ := each e x s taken depth
      refine ⟨_, .rescued d moves block handler x r s e t t' course ended taken course', account_append _ _ account ?_⟩
      refine account_cons _ _ (account_single _ (fun _ => .inl rfl) (fun strict _ => ?_) (fun _ => .inl rfl) nofun) account'
      rw [strict] at passes
      obtain ⟨exceeded, exhausted⟩ := passes.resolve_left Bool.false_ne_true
      refine ⟨rfl, Nat.le_refl _, fun hides => ?_, fun hides => ?_⟩
      · cases hides
        cases exceeded.symm.trans taken
      · cases hides
        cases exhausted.symm.trans taken

/-! Loops. -/

-- A round after which the loop goes on has counted a step.
def Counted (raw free : Bool) (host : HostFunction) (rounds d floor : Nat) (moves : Bool) (round : Run (σ ⊕ α))
    (r : Realm) : Prop :=
  ∃ t, Course host rounds d moves round r t ∧ Account host raw free rounds floor t ∧
    ∀ state s, round (machine host .resolved rounds d) r = .ok (.inl state) s → 0 < counts t

theorem counted_step (rest : Run (σ ⊕ α))
    (after : ∀ s, s.depth = r.depth → Traced raw free host rounds d floor moves rest s) :
    Counted raw free host rounds d floor moves (step >>= fun _ => rest) r := by
  by_cases room : ∀ limit, r.config.stepsLimit = some limit → r.steps < limit
  · obtain ⟨t, course, account⟩ := after r.counted rfl
    refine ⟨_, .bind d moves _ _ r r.counted ⟨⟩ _ t (.count d moves r room) (step_room _ r room) course,
      account_cons _ _ (account_aside _ rfl rfl (Nat.le_succ _) nofun ⟨nofun, nofun⟩) account, fun _ _ _ => ?_⟩
    rw [List.cons_append, List.nil_append, counts, List.countP_cons]
    exact Nat.succ_pos _
  · obtain ⟨limit, exceeded⟩ := not_forall.mp room
    obtain ⟨limited, exceeded⟩ := Classical.not_imp.mp exceeded
    have exceeding := Nat.not_lt.mp exceeded
    have ended := step_over (machine host .resolved rounds d) r limit limited exceeding
    refine ⟨_, .broken d moves _ _ r _ _ _ (.exceed d moves r limit limited exceeding) ended,
      account_aside _ rfl rfl (Nat.le_succ _) nofun ⟨nofun, nofun⟩, fun state s went => ?_⟩
    rw [bind_at, ended] at went
    cases went

theorem counted_end (a : α) : Counted raw free host rounds d floor moves (pure (.inr a) : Run (σ ⊕ α)) r := by
  refine ⟨_, .pure d moves _ r, account_nil, fun state s ended => ?_⟩
  cases ended

theorem counted_heap (f : Heap → Run (σ ⊕ α)) (rest : Counted raw free host rounds d floor moves (f r.heap) r) :
    Counted raw free host rounds d floor moves (heap >>= f) r := by
  obtain ⟨t, course, account, counted⟩ := rest
  exact ⟨t, .bind d moves MonadState.get (fun s => f s.heap) r r r [] t (.get d moves r) rfl course, account, counted⟩

theorem traced_rounds (round : σ → Run (σ ⊕ α)) (fuel : Nat) (enough : fuel ≤ rounds) (state : σ)
    (each : ∀ state s, s.depth = r.depth → Counted raw free host rounds d floor moves (round state) s) :
    ∃ t, Course host rounds d moves (loopFrom round fuel state) r t ∧ Account host raw free fuel floor t := by
  induction fuel generalizing state r with
  | zero =>
    refine ⟨_, .exhausted d moves r, ?_⟩
    exact account_single _ (fun _ => .inl rfl) (fun _ _ => ⟨rfl, Nat.le_refl _, nofun, nofun⟩) (fun _ => .inl rfl)
      fun _ => .inl rfl
  | succ fuel hyp =>
    obtain ⟨t, course, account, counted⟩ := each state r rfl
    have depth := course_depth (round state) t course
    have first := account_less (fuel + 1) floor t enough (Nat.le_refl _) account
    cases ended : round state (machine host .resolved rounds d) r with
    | error e s => exact ⟨t, .broken d moves _ _ r s e t course ended, first⟩
    | ok next s =>
      rw [ended] at depth
      cases next with
      | inr result =>
        refine ⟨t ++ [], Course.bind d moves (round state) _ r s (.inr result) t [] course ended ?_, ?_⟩
        · exact .pure d moves result s
        exact account_append _ _ first account_nil
      | inl state =>
        have enough' : fuel ≤ rounds := Nat.le_of_succ_le enough
        obtain ⟨t', course', account'⟩ := hyp (r := s) enough' state fun state' s' same =>
          each state' s' (same.trans depth)
        refine ⟨t ++ t', Course.bind d moves (round _) _ r s (.inl state) t t' course ended ?_, account_after _ _ first ?_⟩
        · exact course'
        have some := counted state s ended
        exact account_less _ _ t' (by omega) (Nat.le_refl _) account'

theorem traced_loop (state : σ) (round : σ → Run (σ ⊕ α))
    (each : ∀ state s, s.depth = r.depth → Counted raw free host rounds d floor moves (round state) s) :
    Traced raw free host rounds d floor moves (loop state round) r := by
  refine traced_given _ _ ⟨_, .read d moves r, account_nil⟩ fun m s ended depth => ?_
  have same : m.rounds = rounds := by
    cases ended
    cases d <;> rfl
  rw [same]
  exact traced_rounds round rounds (Nat.le_refl _) state fun state' s' same' => each state' s' (same'.trans depth)

theorem traced_while (labels : List Label) (test : Run Bool) (body : Run Completion) (update : Run Unit)
    (tests : ∀ s, s.depth = r.depth → Traced raw free host rounds d floor moves test s)
    (runs : ∀ s, s.depth = r.depth → Traced raw free host rounds d floor moves body s)
    (updates : ∀ s, s.depth = r.depth → Traced raw free host rounds d floor moves update s) :
    Traced raw free host rounds d floor moves (whileRounds labels test body update) r := by
  refine traced_loop _ _ fun value s same => counted_step _ fun s₁ same₁ => ?_
  have here := same₁.trans same
  refine traced_bind _ _ (tests s₁ here) fun _ s₂ same₂ => traced_ite _ _ _ ?_ (traced_pure _)
  refine traced_bind _ _ (runs s₂ (same₂.trans here)) fun c s₃ same₃ => ?_
  split
  · exact traced_bind _ _ (updates s₃ (same₃.trans (same₂.trans here))) fun _ _ _ => traced_pure _
  · exact traced_pure _

theorem traced_do (labels : List Label) (body : Run Completion) (test : Run Bool)
    (runs : ∀ s, s.depth = r.depth → Traced raw free host rounds d floor moves body s)
    (tests : ∀ s, s.depth = r.depth → Traced raw free host rounds d floor moves test s) :
    Traced raw free host rounds d floor moves (doRounds labels body test) r := by
  refine traced_loop _ _ fun value s same => counted_step _ fun s₁ same₁ => ?_
  have here := same₁.trans same
  refine traced_bind _ _ (runs s₁ here) fun c s₂ same₂ => ?_
  split
  · refine traced_bind _ _ (tests s₂ (same₂.trans here)) fun _ _ _ => ?_
    exact traced_ite _ _ _ (traced_pure _) (traced_pure _)
  · exact traced_pure _

theorem traced_names (labels : List Label) (id : ObjectId) (assign : Value → Run Unit) (body : Run Completion)
    (assigns : ∀ v s, s.depth = r.depth → Traced raw free host rounds d floor moves (assign v) s)
    (runs : ∀ s, s.depth = r.depth → Traced raw free host rounds d floor moves body s) :
    Traced raw free host rounds d floor moves (nameRounds labels id assign body) r := by
  refine traced_heap _ (traced_loop _ _ fun state s same => ?_)
  obtain ⟨names, value⟩ := state
  refine counted_heap _ ?_
  split
  · exact counted_end _
  · refine counted_step _ fun s₁ same₁ => ?_
    have here := same₁.trans same
    refine traced_bind _ _ (assigns _ s₁ here) fun _ s₂ same₂ => ?_
    refine traced_bind _ _ (runs s₂ (same₂.trans here)) fun c _ _ => ?_
    split
    · exact traced_pure _
    · exact traced_pure _

end

/-! What enters code. -/

section

variable {raw free : Bool} {host : HostFunction} {rounds d floor depth : Nat} {moves : Bool} {α : Type} {r : Realm}

section

variable (enters : ∀ moves f this args s, s.depth = depth →
  Traced raw free host rounds d floor moves (enter (.call f this args)) s)
include enters

theorem traced_call (f this : Value) (args : List Value) (here : r.depth = depth) :
    Traced raw free host rounds d floor moves (call f this args) r := by
  refine traced_heap _ ?_
  cases f with
  | object id => exact traced_ite _ _ _ (enters _ _ _ _ r here) (traced_error _ _)
  | _ => exact traced_error _ _

-- Reading a property calls functions only, and constructs with none.
theorem traced_get (id : ObjectId) (key : PropertyKey) (here : r.depth = depth) :
    Traced raw free host rounds d floor moves (get id key) r := by
  refine traced_heap _ ?_
  split
  · exact traced_pure _
  · refine traced_heap _ (traced_bind _ _ ?_ fun v s _ => traced_heap _ ?_)
    · unfold readDescriptor
      split
      · exact traced_pure _
      · exact traced_call enters _ _ _ here
      · exact traced_pure _
    · exact traced_ite _ _ _ (traced_bind _ _ (traced_error _ _) fun _ _ _ => traced_pure _) (traced_pure _)

end

variable (enters : ∀ moves invocation s, s.depth = depth →
  Traced raw free host rounds d floor moves (enter invocation) s)
include enters

theorem traced_eval_code (text : String) (strict : Bool) (caller : Context) (here : r.depth = depth) :
    Traced raw free host rounds d floor moves (runEvalCode text strict caller) r := by
  refine traced_look _ ?_
  refine traced_bind _ _ (traced_parsed _ _) fun parsed s same => ?_
  have inside := same.trans here
  refine traced_ite _ _ _ ?_ (enters _ _ _ inside)
  exact traced_bind _ _ (traced_environment _ _) fun _ s' same' => enters _ _ _ (same'.trans inside)

theorem traced_native (x : Run α) (limits : Bool) (native : Native limits x) (kept : free = false → limits = false)
    (here : r.depth = depth) : Traced raw free host rounds d floor moves x r := by
  induction native generalizing r with
  | pure a => exact traced_pure a
  | given x f _ _ first second =>
    exact traced_given x f (first here) fun a s ended same => second _ _ a s ended (same.trans here)
  | throwing v => exact traced_thrown v
  | look f _ _ each => exact traced_look f (each r here)
  | beside f outward _ keeps => exact traced_beside f outward fun strict => keeps (kept strict)
  | newObject kind prototype properties bare => exact traced_bare_object kind prototype properties bare
  | newArray items => exact traced_array items
  | define id key d other k oneKind _ _ otherwise after =>
    exact traced_define id key d other k oneKind (otherwise here) fun accepted s same => after accepted (same.trans here)
  | defineLength id d length old isValue short => exact traced_update _ (.length _ id d length old isValue short)
  | delete id key => exact traced_update _ (.delete _ id key)
  | preventExtensions id => exact traced_modify_heap _ (.close _ id)
  | setTraceLimit v => exact traced_modify_heap _ (.override _ v)
  | call f this args => exact enters _ _ _ here
  | construct f args => exact enters _ _ _ here
  | evaluation text => exact traced_eval_code enters text false globalContext here
  | functionOfTexts texts => exact traced_function_of_texts texts

-- What a host does that is held to less.
theorem traced_uniform (x : Run α) (uniform : Uniform x) (allowed : raw = true ∧ free = true)
    (here : r.depth = depth) : Traced raw free host rounds d floor moves x r := by
  obtain ⟨rfl, rfl⟩ := allowed
  have loose (strict : true = false) : false := by cases strict
  induction uniform generalizing r with
  | pure a => exact traced_pure a
  | given x f _ _ first second =>
    exact traced_given x f (first here) fun a s ended same => second _ _ a s ended (same.trans here)
  | throwing v => exact traced_thrown v
  | look f _ _ each => exact traced_look f (each r here)
  | beside f outward => exact traced_beside f outward nofun
  | newObject kind prototype properties bare => exact traced_bare_object kind prototype properties bare
  | newArray items => exact traced_array items
  | define id key d other k oneKind _ _ otherwise after =>
    exact traced_define id key d other k oneKind (otherwise here) fun accepted s same => after accepted (same.trans here)
  | defineLength id d length old isValue => exact traced_edit _ (.length _ id d length old isValue) nofun
  | delete id key => exact traced_update _ (.delete _ id key)
  | preventExtensions id => exact traced_modify_heap _ (.close _ id)
  | setTraceLimit v => exact traced_modify_heap _ (.override _ v)
  | call f this args => exact enters _ _ _ here
  | construct f args => exact enters _ _ _ here
  | evaluation text => exact traced_eval_code enters text false globalContext here
  | functionOfTexts texts => exact traced_function_of_texts texts

theorem coded_traced (x : Run α) (coded : Coded raw free moves x) (here : r.depth = depth) :
    Traced raw free host rounds d floor moves x r := by
  induction coded generalizing r with
  | uniform x allowed uniform => exact traced_uniform enters x uniform allowed here
  | native x native => exact traced_native enters x _ native id here
  | bind x f _ _ first second => exact traced_bind x f (first here) fun a s same => second a (same.trans here)
  | look f _ _ each => exact traced_look f (each r here)
  | found v strict => exact traced_found v strict
  | update f regular => exact traced_update f (regular _)
  | modify f regular => exact traced_modify_heap f (regular _)
  | function routine scope => exact traced_function routine scope
  | place f same => exact traced_place f (same _)
  | step => exact traced_step
  | within env body _ inside => exact traced_within env body (inside here)
  | catching block handler _ _ body rest =>
    exact traced_catching block handler (body here) fun v s same => rest v (same.trans here)
  | thenFinally block finalizer _ _ body rest =>
    exact traced_finally block finalizer (body here) fun s same => rest (same.trans here)
  | whileRounds labels test body update _ _ _ tests runs updates =>
    exact traced_while labels test body update (fun s same => tests (same.trans here))
      (fun s same => runs (same.trans here)) fun s same => updates (same.trans here)
  | doRounds labels body test _ _ runs tests =>
    exact traced_do labels body test (fun s same => runs (same.trans here)) fun s same => tests (same.trans here)
  | nameRounds labels id assign body _ _ assigns runs =>
    exact traced_names labels id assign body (fun v s same => assigns v (same.trans here))
      fun s same => runs (same.trans here)
  | enter invocation => exact enters _ _ _ here
  | evaluation text strict caller => exact traced_eval_code enters text strict caller here
  | rescuing block handler passes _ _ body each =>
    exact traced_rescuing block handler passes (body here) fun e x s taken same => each e x taken (same.trans here)

end

/-! Nothing that happens in a realm redirects a link. -/

theorem changes_extend (r s : Realm) (changes : r.Changes s) : r.heap.Extends s.heap := by
  cases changes with
  | heap h edit => exact Heap.edit_extends r.heap h edit
  | beside _ heap running waiting hosts steps =>
    rw [heap]
    exact Heap.extends_refl r.heap

theorem lawful_extends (m : Moment) (lawful : m.Lawful) : m.before.heap.Extends m.after.heap := by
  cases lawful with
  | change r s changes => exact changes_extend r s changes
  | refuse r o frames isError full => exact Heap.extends_object r.heap o
  | leave r =>
    dsimp only
    rw [(leave_keeps r).1]
    exact Heap.extends_refl r.heap
  | _ => exact Heap.extends_refl _

theorem chain_extends (r s : Realm) (t : List Moment) (chain : Chain r t s) : r.heap.Extends s.heap := by
  induction chain with
  | nil r => exact Heap.extends_refl r.heap
  | cons m t s lawful _ hyp => exact Heap.extends_trans _ _ _ (lawful_extends m lawful) hyp

end Ecma
