import Mathlib
import Ecma.Proofs.Heap.Enumerator

set_option autoImplicit false

/-!
What an enumeration reports when the heap may change between its calls, and what it lists when it does not.
-/

namespace Ecma

namespace Heap

theorem prototype_chain_trans (h : Heap) (a b c : ObjectId) (first : b ∈ h.prototypeChain a)
    (second : c ∈ h.prototypeChain b) : c ∈ h.prototypeChain a := by
  induction a using Nat.strongRecOn with
  | _ a hyp =>
    have step := prototype_chain_step h a
    rw [step] at first ⊢
    cases link : h.prototype? a with
    | none =>
      rw [link] at first
      cases List.mem_singleton.mp first
      rw [step, link] at second
      exact second
    | some p =>
      rw [link] at first
      cases List.mem_cons.mp first with
      | inl same =>
        cases same
        rw [step, link] at second
        exact second
      | inr deeper => exact List.mem_cons_of_mem a (hyp p (prototype_less h a p link) deeper)

-- The objects whose keys are listed.
def visits (h : Heap) (ownOnly : Bool) (id : ObjectId) : List ObjectId :=
  if ownOnly then [id] else h.prototypeChain id

theorem visits_step (h : Heap) (ownOnly : Bool) (id : ObjectId) :
    h.visits ownOnly id = id :: (if ownOnly then none else h.prototype? id).elim [] (h.visits ownOnly) := by
  cases ownOnly with
  | true => rfl
  | false => exact prototype_chain_step h id

theorem mem_visits (h : Heap) (ownOnly : Bool) (id : ObjectId) : id ∈ h.visits ownOnly id := by
  rw [visits_step]
  exact List.mem_cons_self

theorem visits_trans (h : Heap) (ownOnly : Bool) (a b c : ObjectId) (first : b ∈ h.visits ownOnly a)
    (second : c ∈ h.visits ownOnly b) : c ∈ h.visits ownOnly a := by
  cases ownOnly with
  | true =>
    cases List.mem_singleton.mp first
    exact second
  | false => exact prototype_chain_trans h a b c first second

end Heap

namespace Enumerator

/-! What a turn does. -/

-- How much is left: objects of smaller numbers, and keys.
def rank (e : Enumerator) : Nat ×ₗ Nat :=
  toLex (e.current.elim 0 (· + 1), e.pending.length)

def Turn.left : Turn → Enumerator
  | .moves e => e
  | .reports _ e => e
  | .finishes e => e

-- Nothing seen is forgotten, and no object is gone back to.
structure Onward (h : Heap) (e e' : Enumerator) : Prop where
  ownOnly : e'.ownOnly = e.ownOnly
  enumerableOnly : e'.enumerableOnly = e.enumerableOnly
  seen : ∀ key, e.seen.contains key = true → e'.seen.contains key = true
  current : ∀ id', e'.current = some id' → ∃ id, e.current = some id ∧ id' ∈ h.visits e.ownOnly id
  rank : e'.rank ≤ e.rank

theorem onward_refl (h : Heap) (e : Enumerator) : e.Onward h e := by
  exact ⟨rfl, rfl, fun _ there => there, fun id there => ⟨id, there, h.mem_visits e.ownOnly id⟩, le_rfl⟩

theorem onward_trans (h : Heap) (e e' e'' : Enumerator) (first : e.Onward h e') (second : e'.Onward h e'') :
    e.Onward h e'' := by
  refine ⟨second.ownOnly.trans first.ownOnly, second.enumerableOnly.trans first.enumerableOnly,
    fun key there => second.seen key (first.seen key there), fun c here => ?_, second.rank.trans first.rank⟩
  obtain ⟨b, between, later⟩ := second.current c here
  obtain ⟨a, start, sooner⟩ := first.current b between
  rw [first.ownOnly] at later
  exact ⟨a, start, h.visits_trans e.ownOnly a b c sooner later⟩

section

variable (h : Heap) (e : Enumerator)

theorem rank_pending (key : PropertyKey) (rest : List PropertyKey) (turns : e.pending = key :: rest)
    (seen : SeenKeys) : rank { e with pending := rest, seen := seen } < e.rank := by
  refine Prod.Lex.toLex_lt_toLex.mpr (.inr ⟨rfl, ?_⟩)
  rw [turns]
  exact Nat.lt_succ_self _

-- Where a key is taken from the pending ones.
theorem onward_pending (key : PropertyKey) (rest : List PropertyKey) (turns : e.pending = key :: rest)
    (seen : SeenKeys) (more : ∀ k, e.seen.contains k = true → seen.contains k = true) :
    e.Onward h { e with pending := rest, seen := seen } := by
  exact ⟨rfl, rfl, more, fun id here => ⟨id, here, h.mem_visits e.ownOnly id⟩,
    (rank_pending e key rest turns seen).le⟩

theorem rank_finished : rank { e with current := none } ≤ e.rank := by
  refine Prod.Lex.toLex_le_toLex.mpr ?_
  cases e.current with
  | none => exact .inr ⟨rfl, Nat.le_refl _⟩
  | some id => exact .inl (Nat.succ_pos id)

theorem rank_next (id p : ObjectId) (here : e.current = some id) (less : p < id) (keys : List PropertyKey) :
    rank { e with current := some p, pending := keys } < e.rank := by
  refine Prod.Lex.toLex_lt_toLex.mpr (.inl ?_)
  rw [here]
  exact Nat.succ_lt_succ less

-- The turns there are.
inductive Taken : Turn → Prop where
  | finished (here : e.current = none) : Taken (.finishes e)
  | last (id : ObjectId) (here : e.current = some id) (done : e.pending = [])
      (link : (if e.ownOnly then none else h.prototype? id) = none) : Taken (.finishes { e with current := none })
  | next (id p : ObjectId) (here : e.current = some id) (done : e.pending = [])
      (link : (if e.ownOnly then none else h.prototype? id) = some p) (less : p < id) :
      Taken (.moves { e with current := some p, pending := h.ownKeys p })
  | seen (id : ObjectId) (key : PropertyKey) (rest : List PropertyKey) (here : e.current = some id)
      (turns : e.pending = key :: rest) (old : e.seen.contains key = true) :
      Taken (.moves { e with pending := rest })
  | absent (id : ObjectId) (key : PropertyKey) (rest : List PropertyKey) (here : e.current = some id)
      (turns : e.pending = key :: rest) (new : e.seen.contains key = false) (absent : h.own? id key = none) :
      Taken (.moves { e with pending := rest })
  | hidden (id : ObjectId) (key : PropertyKey) (rest : List PropertyKey) (d : Descriptor)
      (here : e.current = some id) (turns : e.pending = key :: rest) (new : e.seen.contains key = false)
      (there : h.own? id key = some d) (hidden : e.shows d = false) :
      Taken (.moves { e with pending := rest, seen := e.seen.add key })
  | shown (id : ObjectId) (key : PropertyKey) (rest : List PropertyKey) (d : Descriptor)
      (here : e.current = some id) (turns : e.pending = key :: rest) (new : e.seen.contains key = false)
      (there : h.own? id key = some d) (shown : e.shows d = true) :
      Taken (.reports key { e with pending := rest, seen := e.seen.add key })

theorem turn_taken : e.Taken h (e.turn h) := by
  cases here : e.current with
  | none =>
    rw [turn_finished h e here]
    exact .finished here
  | some id =>
    cases turns : e.pending with
    | nil =>
      rw [turn_done h e id here turns]
      cases link : (if e.ownOnly then none else h.prototype? id) with
      | none => exact .last id here turns link
      | some p =>
        refine .next id p here turns link ?_
        cases flag : e.ownOnly with
        | true => rw [flag] at link; cases link
        | false => rw [flag] at link; exact Heap.prototype_less h id p link
    | cons key rest =>
      cases new : e.seen.contains key with
      | true =>
        rw [turn_seen h e id key rest here turns new]
        exact .seen id key rest here turns new
      | false =>
        cases there : h.own? id key with
        | none =>
          rw [turn_absent h e id key rest here turns new there]
          exact .absent id key rest here turns new there
        | some d =>
          rw [turn_there h e id key rest here turns new d there]
          cases shown : e.shows d with
          | true => exact .shown id key rest d here turns new there shown
          | false => exact .hidden id key rest d here turns new there shown

theorem turn_onward : e.Onward h (e.turn h).left := by
  have old (key : PropertyKey) (k : PropertyKey) (there : e.seen.contains k = true) :
      (e.seen.add key).contains k = true := (e.seen.contains_add key k).mpr (.inr there)
  have taken := turn_taken h e
  generalize e.turn h = t at taken ⊢
  cases taken with
  | finished here => exact onward_refl h e
  | last id here done link => exact ⟨rfl, rfl, fun _ there => there, nofun, rank_finished e⟩
  | next id p here done link less =>
    refine ⟨rfl, rfl, fun _ there => there, fun _ there => ⟨id, here, ?_⟩, (rank_next e id p here less _).le⟩
    cases there
    rw [h.visits_step, link]
    exact List.mem_cons_of_mem id (h.mem_visits e.ownOnly p)
  | seen id key rest here turns => exact onward_pending h e key rest turns e.seen fun _ there => there
  | absent id key rest here turns => exact onward_pending h e key rest turns e.seen fun _ there => there
  | hidden id key rest d here turns => exact onward_pending h e key rest turns _ (old key)
  | shown id key rest d here turns => exact onward_pending h e key rest turns _ (old key)

theorem turn_less (e' : Enumerator) (moves : e.turn h = .moves e') : e'.rank < e.rank := by
  have taken := turn_taken h e
  rw [moves] at taken
  cases taken with
  | next id p here done link less => exact rank_next e id p here less _
  | seen id key rest here turns => exact rank_pending e key rest turns e.seen
  | absent id key rest here turns => exact rank_pending e key rest turns e.seen
  | hidden id key rest d here turns => exact rank_pending e key rest turns _

end

/-! What a call does. -/

section

variable (h : Heap)

def Moves (a b : Enumerator) : Prop :=
  a.turn h = .moves b

section

variable (property : Enumerator → Prop) (step : ∀ e, (∀ e', e'.rank < e.rank → property e') → property e)
include step

theorem rank_induction (e : Enumerator) : property e := by
  exact (InvImage.wf rank wellFounded_lt).induction e step

end

-- A call moves on until a turn ends it.
theorem next_ends (e : Enumerator) : ∃ e₁, Relation.ReflTransGen (Moves h) e e₁ ∧
    ((∃ key e', e₁.turn h = .reports key e' ∧ e.next h = (some key, e')) ∨
      ∃ e', e₁.turn h = .finishes e' ∧ e.next h = (none, e')) := by
  induction e using rank_induction with
  | step e hyp =>
    rw [next_turn]
    cases taken : e.turn h with
    | reports key e' => exact ⟨e, .refl, .inl ⟨key, e', taken, rfl⟩⟩
    | finishes e' => exact ⟨e, .refl, .inr ⟨e', taken, rfl⟩⟩
    | moves e' =>
      obtain ⟨e₁, moves, ends⟩ := hyp e' (turn_less h e e' taken)
      exact ⟨e₁, moves.head taken, ends⟩

theorem moves_onward (e e₁ : Enumerator) (moves : Relation.ReflTransGen (Moves h) e e₁) : e.Onward h e₁ := by
  induction moves with
  | refl => exact onward_refl h e
  | @tail b c _ move hyp =>
    have step := turn_onward h b
    rw [show b.turn h = .moves c from move] at step
    exact onward_trans h e b c hyp step

theorem next_moves (e e₁ : Enumerator) (moves : Relation.ReflTransGen (Moves h) e e₁) : e.next h = e₁.next h := by
  induction moves with
  | refl => rfl
  | @tail b c _ move hyp => rw [hyp, next_turn h b, show b.turn h = .moves c from move]

theorem next_onward (e : Enumerator) : e.Onward h (e.next h).2 := by
  obtain ⟨e₁, moves, ends⟩ := next_ends h e
  have step := turn_onward h e₁
  obtain ⟨key, e', taken, result⟩ | ⟨e', taken, result⟩ := ends
  all_goals
    rw [taken] at step
    rw [result]
    exact onward_trans h e e₁ e' (moves_onward h e e₁ moves) step

-- A key that is reported has not been seen, and is one of the object at hand.
theorem next_reports (e e' : Enumerator) (key : PropertyKey) (reports : e.next h = (some key, e')) :
    e.seen.contains key = false ∧ e'.seen.contains key = true ∧ e'.rank < e.rank ∧
      ∃ id d, e'.current = some id ∧ h.own? id key = some d ∧ e.shows d = true := by
  obtain ⟨e₁, moves, ends⟩ := next_ends h e
  obtain ⟨key', e'', taken, result⟩ | ⟨e'', taken, result⟩ := ends
  · cases reports.symm.trans result
    have onward := moves_onward h e e₁ moves
    have turn := turn_taken h e₁
    rw [taken] at turn
    cases turn with
    | shown id _ rest d here turns new there shown =>
      refine ⟨Bool.eq_false_iff.mpr fun old => ?_, (SeenKeys.contains_add _ key key).mpr (.inl rfl),
        lt_of_lt_of_le (rank_pending e₁ key rest turns _) onward.rank, id, d, here, there, ?_⟩
      · rw [onward.seen key old] at new
        cases new
      · rw [shows, ← onward.enumerableOnly]
        exact shown
  · cases reports.symm.trans result

theorem next_finished (e e' : Enumerator) (finished : e.next h = (none, e')) : e'.current = none := by
  obtain ⟨e₁, _, ends⟩ := next_ends h e
  obtain ⟨key', e'', taken, result⟩ | ⟨e'', taken, result⟩ := ends
  · cases finished.symm.trans result
  · cases finished.symm.trans result
    have turn := turn_taken h e₁
    rw [taken] at turn
    cases turn with
    | finished here => exact here
    | last => rfl

-- An object is visited for a key in a call.
def VisitedFrom (e : Enumerator) (id : ObjectId) (key : PropertyKey) : Prop :=
  ∃ e₁ rest, Relation.ReflTransGen (Moves h) e e₁ ∧ e₁.current = some id ∧ e₁.pending = key :: rest

-- A key that is there when its turn comes is seen, and the call reports it on this object or not at all.
theorem next_visited (e : Enumerator) (id : ObjectId) (key : PropertyKey) (visited : VisitedFrom h e id key)
    (there : (h.own? id key).isSome = true) : (e.next h).2.seen.contains key = true ∧
      ((e.next h).1 = some key → (e.next h).2.current = some id) := by
  obtain ⟨e₁, rest, moves, here, turns⟩ := visited
  obtain ⟨d, found⟩ := Option.isSome_iff_exists.mp there
  rw [next_moves h e e₁ moves]
  have again (e₂ : Enumerator) (same : e₁.next h = e₂.next h) (old : e₂.seen.contains key = true) :
      (e₁.next h).2.seen.contains key = true ∧ ((e₁.next h).1 = some key → (e₁.next h).2.current = some id) := by
    rw [same]
    refine ⟨(next_onward h e₂).seen key old, fun reported => ?_⟩
    have new := (next_reports h e₂ _ key (Prod.ext reported rfl)).1
    rw [old] at new
    cases new
  cases new : e₁.seen.contains key with
  | true => exact again e₁ rfl new
  | false =>
    have step := next_turn h e₁
    have added : (e₁.seen.add key).contains key = true := (SeenKeys.contains_add _ key key).mpr (.inl rfl)
    rw [turn_there h e₁ id key rest here turns new d found] at step
    cases shown : e₁.shows d with
    | true =>
      rw [shown, if_pos rfl] at step
      rw [step]
      exact ⟨added, fun _ => here⟩
    | false =>
      rw [shown, if_neg Bool.false_ne_true] at step
      exact again _ step added

end

/-! Calls while the heap changes. -/

section

variable (heaps : Nat → Heap) (e : Enumerator)

-- What is left after so many calls, each on a heap of its own.
def after : Nat → Enumerator
  | 0 => e
  | n + 1 => ((after n).next (heaps n)).2

def result (n : Nat) : Option PropertyKey :=
  ((after heaps e n).next (heaps n)).1

theorem after_seen (m n : Nat) (later : m ≤ n) (key : PropertyKey)
    (seen : (after heaps e m).seen.contains key = true) : (after heaps e n).seen.contains key = true := by
  induction n, later using Nat.le_induction with
  | base => exact seen
  | succ n _ hyp => exact (next_onward (heaps n) _).seen key hyp

theorem after_flags (n : Nat) : (after heaps e n).ownOnly = e.ownOnly ∧
    (after heaps e n).enumerableOnly = e.enumerableOnly := by
  induction n with
  | zero => exact ⟨rfl, rfl⟩
  | succ n hyp =>
    have onward := next_onward (heaps n) (after heaps e n)
    exact ⟨onward.ownOnly.trans hyp.1, onward.enumerableOnly.trans hyp.2⟩

theorem result_some (n : Nat) (key : PropertyKey) (reported : result heaps e n = some key) :
    (after heaps e n).next (heaps n) = (some key, after heaps e (n + 1)) := by
  exact Prod.ext reported rfl

theorem result_seen (n : Nat) (key : PropertyKey) (reported : result heaps e n = some key) (m : Nat)
    (sooner : m ≤ n) : (after heaps e m).seen.contains key = false := by
  have new := (next_reports (heaps n) _ _ key (result_some heaps e n key reported)).1
  refine Bool.eq_false_iff.mpr fun old => ?_
  rw [after_seen heaps e m n sooner key old] at new
  cases new

theorem result_once (m n : Nat) (key : PropertyKey) (first : result heaps e m = some key)
    (second : result heaps e n = some key) : m = n := by
  -- after a report the key has been seen
  have apart (m n : Nat) (first : result heaps e m = some key) (second : result heaps e n = some key) :
      ¬m < n := by
    intro less
    have seen := (next_reports (heaps m) _ _ key (result_some heaps e m key first)).2.1
    rw [result_seen heaps e n key second (m + 1) less] at seen
    cases seen
  exact Nat.le_antisymm (Nat.le_of_not_lt (apart n m second first)) (Nat.le_of_not_lt (apart m n first second))

theorem result_finished (n : Nat) (finished : (after heaps e n).current = none) (m : Nat) (later : n ≤ m) :
    result heaps e m = none ∧ (after heaps e m).current = none := by
  have still (n : Nat) (finished : (after heaps e n).current = none) :
      (after heaps e n).next (heaps n) = (none, after heaps e n) := by
    rw [next_turn, turn_finished _ _ finished]
  induction m, later using Nat.le_induction with
  | base => exact ⟨congrArg Prod.fst (still n finished), finished⟩
  | succ m _ hyp =>
    have here : (after heaps e (m + 1)).current = none := by
      rw [after, still m hyp.2]
      exact hyp.2
    exact ⟨congrArg Prod.fst (still (m + 1) here), here⟩

-- A report uses up some of what is left, so reports come to an end.
theorem result_ends : ∃ n, ∀ m ≥ n, result heaps e m = none := by
  let ranks := Set.range fun n => (after heaps e n).rank
  obtain ⟨_, ⟨n, rfl⟩, least⟩ := wellFounded_lt.has_min ranks ⟨_, 0, rfl⟩
  refine ⟨n + 1, fun m later => (result_finished heaps e (n + 1) ?_ m later).1⟩
  cases reported : result heaps e n with
  | none => exact next_finished (heaps n) _ _ (Prod.ext reported rfl)
  | some key =>
    have less := (next_reports (heaps n) _ _ key (result_some heaps e n key reported)).2.2.1
    exact absurd less (least _ ⟨n + 1, rfl⟩)

end

/-! Calls on one heap. -/

section

variable (h : Heap) (shown : Descriptor → Bool)

-- The keys among these that are shown for an object and are not keys of the ones before it.
def fresh (earlier : List ObjectId) (id : ObjectId) (keys : List PropertyKey) : List PropertyKey :=
  keys.filter fun key => (h.own? id key).any shown && decide (∀ before ∈ earlier, key ∉ h.ownKeys before)

def listing (earlier : List ObjectId) : List ObjectId → List PropertyKey
  | [] => []
  | id :: rest => fresh h shown earlier id (h.ownKeys id) ++ listing (earlier ++ [id]) rest

end

section

variable (h : Heap)

def results (e : Enumerator) (n : Nat) : Option PropertyKey :=
  result (fun _ => h) e n

theorem after_next (e : Enumerator) (n : Nat) :
    after (fun _ => h) e (n + 1) = after (fun _ => h) (e.next h).2 n := by
  induction n with
  | zero => rfl
  | succ n hyp => rw [after, hyp, after]

theorem results_next (e : Enumerator) (n : Nat) : results h e (n + 1) = results h (e.next h).2 n := by
  rw [results, result, after_next]
  rfl

theorem results_same (e e' : Enumerator) (same : e.next h = e'.next h) (n : Nat) :
    results h e n = results h e' n := by
  cases n with
  | zero => exact congrArg Prod.fst same
  | succ n => rw [results_next, results_next, same]

theorem results_finished (e e' : Enumerator) (finished : e.next h = (none, e')) (done : e'.current = none) (n : Nat) :
    results h e n = none := by
  cases n with
  | zero => exact congrArg Prod.fst finished
  | succ n =>
    rw [results_next, finished]
    exact (result_finished (fun _ => h) e' 0 done n (Nat.zero_le n)).1

-- The enumerator stands at an object: what was seen are the keys of the objects before and some of its own.
structure Stands (e : Enumerator) (earlier : List ObjectId) (id : ObjectId) (gone : List PropertyKey) : Prop where
  current : e.current = some id
  keys : h.ownKeys id = gone ++ e.pending
  seen : ∀ key, e.seen.contains key = true ↔ (∃ before ∈ earlier, key ∈ h.ownKeys before) ∨ key ∈ gone

theorem start_stands (id : ObjectId) (ownOnly enumerableOnly : Bool) :
    Stands h (start h id ownOnly enumerableOnly) [] id [] := by
  refine ⟨rfl, rfl, fun key => ⟨fun seen => ?_, ?_⟩⟩
  · cases key with
    | index i =>
      have none : (∅ : Std.TreeMap Nat Unit).contains i = false := Std.TreeMap.contains_emptyc
      exact absurd seen (Bool.eq_false_iff.mp none)
    | name s => cases seen
  · rintro (⟨_, nowhere, _⟩ | nowhere) <;> cases nowhere

section

variable (e : Enumerator) (earlier : List ObjectId) (id : ObjectId) (gone : List PropertyKey)
  (stands : Stands h e earlier id gone)
include stands

theorem stands_pending (key : PropertyKey) (rest : List PropertyKey) (turns : e.pending = key :: rest)
    (seen : SeenKeys) (more : ∀ k, seen.contains k = true ↔ k = key ∨ e.seen.contains k = true) :
    Stands h { e with pending := rest, seen := seen } earlier id (gone ++ [key]) := by
  refine ⟨stands.current, ?_, fun k => ?_⟩
  · rw [stands.keys, turns, List.append_assoc]
    rfl
  · rw [more, stands.seen, List.mem_append, List.mem_singleton]
    exact or_comm.trans or_assoc

theorem stands_next (done : e.pending = []) (p : ObjectId) :
    Stands h { e with current := some p, pending := h.ownKeys p } (earlier ++ [id]) p [] := by
  refine ⟨rfl, rfl, fun k => ?_⟩
  have all : h.ownKeys id = gone := by
    rw [stands.keys, done, List.append_nil]
  rw [stands.seen, or_iff_left List.not_mem_nil, ← all]
  constructor
  · rintro (⟨before, member, there⟩ | there)
    · exact ⟨before, List.mem_append_left _ member, there⟩
    · exact ⟨id, List.mem_append_right _ List.mem_cons_self, there⟩
  · rintro ⟨before, member, there⟩
    cases List.mem_append.mp member with
    | inl member => exact .inl ⟨before, member, there⟩
    | inr here => exact .inr (List.mem_singleton.mp here ▸ there)

end

-- What is still to be listed.
def rest (e : Enumerator) (earlier : List ObjectId) (id : ObjectId) : List PropertyKey :=
  fresh h e.shows earlier id e.pending ++ listing h e.shows (earlier ++ [id]) (h.visits e.ownOnly id).tail

theorem rest_pending (e : Enumerator) (earlier : List ObjectId) (id : ObjectId) (key : PropertyKey)
    (keys : List PropertyKey) (turns : e.pending = key :: keys) (seen : SeenKeys) : rest h e earlier id =
      if (h.own? id key).any e.shows && decide (∀ before ∈ earlier, key ∉ h.ownKeys before) then
        key :: rest h { e with pending := keys, seen := seen } earlier id
      else rest h { e with pending := keys, seen := seen } earlier id := by
  rw [rest, turns, fresh, List.filter_cons]
  split <;> rfl

-- With nothing left of an object, what is to be listed begins with its prototype.
theorem rest_done (e : Enumerator) (earlier : List ObjectId) (id : ObjectId) (done : e.pending = []) :
    rest h e earlier id = (if e.ownOnly then none else h.prototype? id).elim [] fun p =>
      rest h { e with current := some p, pending := h.ownKeys p } (earlier ++ [id]) p := by
  rw [rest, done, h.visits_step, List.tail_cons]
  cases (if e.ownOnly then none else h.prototype? id) with
  | none => rfl
  | some p =>
    rw [Option.elim, h.visits_step]
    change _ = fresh h e.shows (earlier ++ [id]) p (h.ownKeys p) ++ listing h e.shows (earlier ++ [id] ++ [p])
      (h.visits e.ownOnly p).tail
    rw [h.visits_step e.ownOnly p]
    rfl

section

variable (tidy : ∀ id, (h.object id).Tidy)
include tidy

theorem results_rest (e : Enumerator) (earlier : List ObjectId) (id : ObjectId) (gone : List PropertyKey)
    (stands : Stands h e earlier id gone) (n : Nat) : results h e n = (rest h e earlier id)[n]? := by
  induction e using rank_induction generalizing earlier id gone n with
  | step e hyp =>
    have apart (key : PropertyKey) (keys : List PropertyKey) (turns : e.pending = key :: keys) : key ∉ gone := by
      have nodup := h.own_keys_nodup id (tidy id)
      rw [stands.keys, turns] at nodup
      exact fun member => (List.nodup_append.mp nodup).2.2 key member key List.mem_cons_self rfl
    have added (key k : PropertyKey) := e.seen.contains_add key k
    have step := next_turn h e
    have less := turn_less h e
    have taken := turn_taken h e
    generalize e.turn h = t at step less taken
    cases taken with
    | finished here => cases here.symm.trans stands.current
    | last id' here done link =>
      cases stands.current.symm.trans here
      rw [rest_done h e earlier id done, link]
      exact results_finished h e _ step rfl n
    | next id' p here done link _ =>
      cases stands.current.symm.trans here
      rw [rest_done h e earlier id done, link, results_same h e _ step]
      exact hyp _ (less _ rfl) _ p [] (stands_next h e earlier id gone stands done p) n
    | seen id' key keys here turns old =>
      cases stands.current.symm.trans here
      obtain ⟨before, member, there⟩ := ((stands.seen key).mp old).resolve_right (apart key keys turns)
      have again (k : PropertyKey) : e.seen.contains k = true ↔ k = key ∨ e.seen.contains k = true :=
        ⟨.inr, fun either => either.elim (fun same => same ▸ old) fun there => there⟩
      rw [rest_pending h e earlier id key keys turns e.seen, if_neg, results_same h e _ step]
      · exact hyp _ (less _ rfl) earlier id _ (stands_pending h e earlier id gone stands key keys turns _ again) n
      · intro both
        exact of_decide_eq_true (Bool.and_eq_true_iff.mp both).2 before member there
    | absent id' key keys here turns new absent =>
      cases stands.current.symm.trans here
      have member : key ∈ h.ownKeys id := by
        rw [stands.keys, turns]
        exact List.mem_append_right _ List.mem_cons_self
      have there := (h.mem_own_keys id key).mp member
      rw [absent] at there
      cases there
    | hidden id' key keys d here turns new there hidden =>
      cases stands.current.symm.trans here
      rw [rest_pending h e earlier id key keys turns (e.seen.add key), there, if_neg, results_same h e _ step]
      · exact hyp _ (less _ rfl) earlier id _
          (stands_pending h e earlier id gone stands key keys turns _ (added key)) n
      · intro both
        rw [show (some d).any e.shows = false from hidden] at both
        cases both
    | shown id' key keys d here turns new there shown =>
      cases stands.current.symm.trans here
      have first (before : ObjectId) (member : before ∈ earlier) : key ∉ h.ownKeys before := by
        intro there
        rw [(stands.seen key).mpr (.inl ⟨before, member, there⟩)] at new
        cases new
      rw [rest_pending h e earlier id key keys turns (e.seen.add key), there, if_pos]
      · cases n with
        | zero => exact congrArg Prod.fst step
        | succ n =>
          rw [results_next, step]
          exact hyp _ (rank_pending e key keys turns _) earlier id _
            (stands_pending h e earlier id gone stands key keys turns _ (added key)) n
      · exact Bool.and_eq_true_iff.mpr ⟨shown, decide_eq_true first⟩

end

end

/-! The whole of it. -/

-- An object's turn for a key comes in a call.
def Visited (heaps : Nat → Heap) (e : Enumerator) (n : Nat) (id : ObjectId) (key : PropertyKey) : Prop :=
  VisitedFrom (heaps n) (after heaps e n) id key

-- Each call sees a heap of its own. No key is reported twice; what is reported is a property of the object at
-- hand, and one that is to be shown; a key that was there when its turn came on an object is not reported for
-- a later one; and reports come to an end. On one heap they are the listing of the objects one after another.
theorem enumeration_safe (heaps : Nat → Heap) (h : Heap) (o : ObjectId) (ownOnly enumerableOnly : Bool) :
    let e := start (heaps 0) o ownOnly enumerableOnly
    (∀ m n key, result heaps e m = some key → result heaps e n = some key → m = n) ∧
    (∀ n key, result heaps e n = some key → ∃ before id d, (after heaps e n).current = some before ∧
      (after heaps e (n + 1)).current = some id ∧ id ∈ (heaps n).visits ownOnly before ∧
      (heaps n).own? id key = some d ∧ (enumerableOnly = true → d.enumerable = true)) ∧
    (∀ m id key, Visited heaps e m id key → ((heaps m).own? id key).isSome = true →
      ∀ n, m ≤ n → result heaps e n = some key → n = m ∧ (after heaps e (n + 1)).current = some id) ∧
    (∃ n, ∀ m, n ≤ m → result heaps e m = none) ∧
    ((∀ id, (h.object id).Tidy) → ∀ n, results h (start h o ownOnly enumerableOnly) n =
      (listing h (fun d => !enumerableOnly || d.enumerable) [] (h.visits ownOnly o))[n]?) := by
  intro e
  refine ⟨fun m n key => result_once heaps e m n key, fun n key reported => ?_,
    fun m id key visited there n later reported => ?_, result_ends heaps e, fun tidy n => ?_⟩
  · have reports := result_some heaps e n key reported
    have flags := after_flags heaps e n
    obtain ⟨_, _, _, id, d, here, there, shown⟩ := next_reports (heaps n) _ _ key reports
    have onward := next_onward (heaps n) (after heaps e n)
    rw [reports] at onward
    obtain ⟨before, start, member⟩ := onward.current id here
    rw [flags.1] at member
    refine ⟨before, id, d, start, here, member, there, fun flag => ?_⟩
    rw [shows, flags.2, show e.enumerableOnly = true from flag] at shown
    exact shown
  · obtain ⟨seen, only⟩ := next_visited (heaps m) (after heaps e m) id key visited there
    have same : n = m := by
      refine (Nat.lt_or_eq_of_le later).elim (fun less => ?_) Eq.symm
      exact absurd seen (Bool.eq_false_iff.mp (result_seen heaps e n key reported (m + 1) less))
    cases same
    exact ⟨rfl, only reported⟩
  · rw [results_rest h tidy _ [] o [] (start_stands h o ownOnly enumerableOnly) n]
    have whole : h.visits ownOnly o = o :: (h.visits ownOnly o).tail := by
      rw [h.visits_step]
      rfl
    rw [rest, whole]
    rfl

-- A string with a hidden property, in front of an object that has one of the same name.
def fronted : Heap :=
  let names (shown : Bool) (last : String) : Dictionary Descriptor :=
    [("x", .data .undefined true shown true), (last, .data .undefined true true true)]
  { objects := #[{ properties := .ofNames (names true "z") },
      { kind := .string "a", prototype := some 0, properties := .ofNames (names false "y") }] }

theorem fronted_tidy (id : ObjectId) : (fronted.object id).Tidy := by
  match id with
  | 0 => exact ⟨by decide, nofun⟩
  | 1 => exact ⟨by decide, fun s i _ _ => rfl⟩
  | id + 2 => exact ⟨List.nodup_nil, nofun⟩

theorem enumeration_lists : (∀ id, (fronted.object id).Tidy) ∧
    (List.range 4).map (results fronted (start fronted 1 false true)) =
      [some (.index 0), some (.name "y"), some (.name "z"), none] := by
  have lists := (enumeration_safe (fun _ => fronted) fronted 1 false true).2.2.2.2 fronted_tidy
  have listed : listing fronted (fun d => !true || d.enumerable) [] (fronted.visits false 1) =
      [.index 0, .name "y", .name "z"] := by
    cbv
  refine ⟨fronted_tidy, ?_⟩
  rw [List.map_congr_left fun n _ => lists n, listed]
  rfl

end Enumerator

end Ecma
