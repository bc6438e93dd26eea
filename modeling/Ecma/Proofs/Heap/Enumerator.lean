import Mathlib.Logic.Relation
import Ecma.Heap.Enumerator
import Ecma.Proofs.Heap.Keys
import Ecma.Proofs.Heap.Pieces

set_option autoImplicit false

/-!
Enumeration while the heap changes. An enumerator takes turns: it goes from one pending key to the next, and
from an object to its prototype when none is left, until a key is reported or no object is left. As links
lead to smaller numbers and each object is listed once, the turns come to an end whatever happens to the heap.
-/

namespace Ecma

namespace SeenKeys

theorem contains_add (s : SeenKeys) (key other : PropertyKey) :
    (s.add key).contains other = true ↔ other = key ∨ s.contains other = true := by
  cases key with
  | index i =>
    cases other with
    | index j =>
      rw [contains, add, contains, Std.TreeMap.contains_insert, Bool.or_eq_true, PropertyKey.index.injEq]
      refine or_congr ?_ Iff.rfl
      rw [beq_iff_eq, Nat.compare_eq_eq]
      exact eq_comm
    | name s' => exact (or_iff_right nofun).symm
  | name n =>
    cases other with
    | index j => exact (or_iff_right nofun).symm
    | name n' =>
      rw [contains, add, contains, List.contains_cons, Bool.or_eq_true, PropertyKey.name.injEq, beq_iff_eq]

end SeenKeys

namespace Enumerator

/-! Turns. -/

-- Whether a property is one of those that are reported.
def shows (e : Enumerator) (d : Descriptor) : Bool :=
  !e.enumerableOnly || d.enumerable

inductive Turn where
  | moves (e : Enumerator)
  | reports (key : PropertyKey) (e : Enumerator)
  | finishes (e : Enumerator)

-- One turn: a pending key, or an object without any.
def turn (h : Heap) (e : Enumerator) : Turn :=
  match e.current with
  | none => .finishes e
  | some id =>
    match e.pending with
    | [] =>
      match if e.ownOnly then none else h.prototype? id with
      | none => .finishes { e with current := none }
      | some p => .moves { e with current := some p, pending := h.ownKeys p }
    | key :: rest =>
      if e.seen.contains key then .moves { e with pending := rest }
      else
        match h.own? id key with
        | none => .moves { e with pending := rest }
        | some d =>
          if e.shows d then .reports key { e with pending := rest, seen := e.seen.add key }
          else .moves { e with pending := rest, seen := e.seen.add key }

section

variable (h : Heap) (e : Enumerator)

theorem turn_finished (here : e.current = none) : e.turn h = .finishes e := by
  rw [turn, here]

theorem turn_done (id : ObjectId) (here : e.current = some id) (done : e.pending = []) :
    e.turn h = match if e.ownOnly then none else h.prototype? id with
      | none => .finishes { e with current := none }
      | some p => .moves { e with current := some p, pending := h.ownKeys p } := by
  rw [turn, here]
  dsimp only
  rw [done]

section

variable (id : ObjectId) (key : PropertyKey) (rest : List PropertyKey) (here : e.current = some id)
  (turns : e.pending = key :: rest)
include here turns

theorem turn_seen (seen : e.seen.contains key = true) : e.turn h = .moves { e with pending := rest } := by
  rw [turn, here]
  dsimp only
  rw [turns]
  exact if_pos seen

theorem turn_absent (new : e.seen.contains key = false) (absent : h.own? id key = none) :
    e.turn h = .moves { e with pending := rest } := by
  rw [turn, here]
  dsimp only
  rw [turns]
  dsimp only
  rw [if_neg (Bool.eq_false_iff.mp new), absent]

theorem turn_there (new : e.seen.contains key = false) (d : Descriptor) (there : h.own? id key = some d) :
    e.turn h = if e.shows d then .reports key { e with pending := rest, seen := e.seen.add key }
      else .moves { e with pending := rest, seen := e.seen.add key } := by
  rw [turn, here]
  dsimp only
  rw [turns]
  dsimp only
  rw [if_neg (Bool.eq_false_iff.mp new), there]

end

end

/-! The turns of a call. -/

theorem scan_same (h : Heap) (e e' : Enumerator) (same : e'.enumerableOnly = e.enumerableOnly) (id : ObjectId)
    (keys : List PropertyKey) (seen : SeenKeys) : e'.scan h id keys seen = e.scan h id keys seen := by
  induction keys generalizing seen with
  | nil => rfl
  | cons key rest hyp =>
    rw [scan, scan, hyp]
    dsimp only
    cases h.own? id key with
    | none => rfl
    | some d =>
      dsimp only
      rw [hyp, same]

-- What comes when the keys of an object have been gone through.
def scanned (h : Heap) (fuel : Nat) (id : ObjectId) (ownOnly enumerableOnly : Bool) :
    Option PropertyKey × List PropertyKey × SeenKeys → Option PropertyKey × Enumerator
  | (some key, rest, seen) => (some key, ⟨some id, rest, seen, ownOnly, enumerableOnly⟩)
  | (none, _, seen) =>
    match if ownOnly then none else h.prototype? id with
    | none => (none, ⟨none, [], seen, ownOnly, enumerableOnly⟩)
    | some p => nextFrom h fuel ⟨some p, h.ownKeys p, seen, ownOnly, enumerableOnly⟩

section

variable (h : Heap) (id : ObjectId) (pending : List PropertyKey) (seen : SeenKeys) (ownOnly enumerableOnly : Bool)

theorem next_from_scanned (fuel : Nat) (e : Enumerator) (flag : e.enumerableOnly = enumerableOnly) :
    nextFrom h (fuel + 1) ⟨some id, pending, seen, ownOnly, enumerableOnly⟩ =
      scanned h fuel id ownOnly enumerableOnly (e.scan h id pending seen) := by
  rw [nextFrom]
  dsimp only
  rw [scan_same h e _ flag.symm]
  generalize e.scan h id pending seen = outcome
  obtain ⟨found, rest, seen⟩ := outcome
  cases found with
  | some key => rfl
  | none =>
    cases ownOnly with
    | true => rfl
    | false =>
      dsimp only [scanned]
      cases h.prototype? id <;> rfl

-- Links lead to smaller numbers, so more fuel than the number of the object changes nothing.
theorem next_from_enough (fuel : Nat) (enough : id < fuel) :
    nextFrom h fuel ⟨some id, pending, seen, ownOnly, enumerableOnly⟩ =
      next h ⟨some id, pending, seen, ownOnly, enumerableOnly⟩ := by
  induction id using Nat.strongRecOn generalizing fuel pending seen with
  | _ id hyp =>
    obtain ⟨fuel, rfl⟩ := Nat.exists_eq_succ_of_ne_zero (Nat.ne_of_gt (Nat.zero_lt_of_lt enough))
    let e : Enumerator := ⟨some id, pending, seen, ownOnly, enumerableOnly⟩
    rw [next]
    change nextFrom h (fuel + 1) _ = nextFrom h (id + 1) _
    rw [next_from_scanned h id pending seen ownOnly enumerableOnly fuel e rfl,
      next_from_scanned h id pending seen ownOnly enumerableOnly id e rfl]
    generalize e.scan h id pending seen = outcome
    obtain ⟨found, rest, seen⟩ := outcome
    cases found with
    | some key => rfl
    | none =>
      rw [scanned, scanned]
      cases ownOnly with
      | true => rfl
      | false =>
        cases link : h.prototype? id with
        | none => simp only [Bool.false_eq_true, if_false]
        | some p =>
          have less : p < id := Heap.prototype_less h id p link
          simp only [Bool.false_eq_true, if_false]
          rw [hyp p less _ _ fuel (Nat.lt_of_lt_of_le less (Nat.le_of_lt_succ enough)),
            hyp p less _ _ id less]

theorem next_scanned (e : Enumerator) (flag : e.enumerableOnly = enumerableOnly) :
    next h ⟨some id, pending, seen, ownOnly, enumerableOnly⟩ =
      scanned h id id ownOnly enumerableOnly (e.scan h id pending seen) := by
  rw [next]
  exact next_from_scanned h id pending seen ownOnly enumerableOnly id e flag

end

-- A call takes turns until a key is reported or no object is left.
theorem next_turn (h : Heap) (e : Enumerator) : e.next h = match e.turn h with
    | .moves e' => e'.next h
    | .reports key e' => (some key, e')
    | .finishes e' => (none, e') := by
  obtain ⟨current, pending, seen, ownOnly, enumerableOnly⟩ := e
  cases current with
  | none => rfl
  | some id =>
    let e : Enumerator := ⟨some id, pending, seen, ownOnly, enumerableOnly⟩
    have scan (pending : List PropertyKey) (seen : SeenKeys) :=
      next_scanned h id pending seen ownOnly enumerableOnly e rfl
    rw [scan]
    cases pending with
    | nil =>
      rw [turn_done h _ id rfl rfl, Enumerator.scan, scanned]
      dsimp only
      cases link : (if ownOnly then none else h.prototype? id) with
      | none => rfl
      | some p =>
        have less : p < id := by
          cases ownOnly with
          | true => cases link
          | false => exact Heap.prototype_less h id p link
        exact next_from_enough h p _ seen ownOnly enumerableOnly id less
    | cons key rest =>
      rw [Enumerator.scan]
      cases new : seen.contains key with
      | true =>
        rw [if_pos rfl, turn_seen h _ id key rest rfl rfl new]
        exact (scan rest seen).symm
      | false =>
        rw [if_neg Bool.false_ne_true]
        cases found : h.own? id key with
        | none =>
          rw [turn_absent h _ id key rest rfl rfl new found]
          exact (scan rest seen).symm
        | some d =>
          rw [turn_there h _ id key rest rfl rfl new d found]
          dsimp only
          cases shown : (!enumerableOnly || d.enumerable) with
          | true =>
            rw [if_pos rfl, if_pos (show e.shows d = true from shown)]
            rfl
          | false =>
            rw [if_neg Bool.false_ne_true, if_neg (Bool.eq_false_iff.mp (show e.shows d = false from shown))]
            exact (scan rest (seen.add key)).symm

end Enumerator

end Ecma
