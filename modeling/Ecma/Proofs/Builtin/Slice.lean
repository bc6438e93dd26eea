import Ecma.Builtin.Array
import Ecma.Proofs.Builtin.Describe
import Ecma.Proofs.Number.Exact
import Ecma.Proofs.Operation.Array

set_option autoImplicit false

/-!
`Array.prototype.slice`: a fresh array that holds a range of an object. The range is filled property by property
with writes that go through the prototypes of the new array.
-/

namespace Ecma

open Run

/-- A position in a length: a negative one counts from the end, and one outside goes to the nearer end. -/
def resolve (a : Int) (n : Nat) : Nat :=
  (min (max (if a < 0 then n + a else a) 0) n).toNat

/-! Relative positions. -/

section

variable (x : Float) (a : Int) (n : Nat) (fits : n < Number.wordCount)

include fits in
theorem clamp_length : Number.clamp indexBound (Float.ofNat n) = n := by
  have wide : Number.wordCount ≤ 2 ^ 53 := by
    decide
  exact Number.clamp_whole _ n (Nat.lt_of_lt_of_le fits wide) (Nat.le_sub_one_of_lt fits)

include fits in
theorem clamp_relative (integral : Number.Integral x a) :
    Number.clamp indexBound (relativeIndex (Number.toInteger x) (Float.ofNat n)) = resolve a n := by
  have wide : Number.wordCount ≤ 2 ^ 53 := by
    decide
  have small : n < 2 ^ 53 := Nat.lt_of_lt_of_le fits wide
  have within : n ≤ indexBound := Nat.le_sub_one_of_lt fits
  have value := Number.to_integer_value x a (Number.integral_value x a integral)
  rw [Number.integer_part_cast] at value
  generalize Number.toInteger x = y at value
  have whole := Number.natural_value n small
  have zero : Number.value? 0.0 = some 0 := Number.zero_value _ _ Number.zero_unpacked
  have below := (Number.value_less y 0.0 a 0 value zero).trans Int.cast_lt_zero
  have less : y < Float.ofNat n ↔ a < n := by
    rw [Number.value_less _ _ _ _ value whole]
    exact_mod_cast Int.cast_lt
  rw [relativeIndex]
  by_cases negative : a < 0
  · obtain ⟨c, rfl⟩ : ∃ c : Nat, a = -(c : Int) := ⟨a.natAbs, by omega⟩
    rw [if_pos (below.mpr negative), resolve, if_pos negative]
    dsimp only
    by_cases left : c < n
    · have sum : (n : ℚ) + ((-(c : Int) : Int) : ℚ) = (n - c : Nat) := by
        rw [Nat.cast_sub (Nat.le_of_lt left), Int.cast_neg, Int.cast_natCast, sub_eq_add_neg]
      have exactly' := Number.sum_exact _ y (Float.ofNat (n - c)) _ _ whole value
        (by rw [sum]; exact Number.natural_value _ (by omega))
      rw [sum] at exactly'
      rw [if_pos ((Number.value_less _ _ _ _ zero exactly').mpr (Nat.cast_pos.mpr (by omega))),
        Number.clamp_value _ _ (n - c : Nat) exactly']
      omega
    · have most : (n : ℚ) + ((-(c : Int) : Int) : ℚ) ≤ 0 := by
        rw [Int.cast_neg, Int.cast_natCast, ← sub_eq_add_neg, sub_nonpos, Nat.cast_le]
        omega
      rw [if_neg (Number.sum_not_above _ y _ _ whole value most), Number.zero_whole, clamp_length 0 (by decide)]
      omega
  · rw [if_neg (mt below.mp negative), resolve, if_neg negative]
    by_cases inside : a < n
    · rw [if_pos (less.mpr inside), Number.clamp_value _ y a value]
      omega
    · rw [if_neg (mt less.mp inside), clamp_length n fits]
      omega

theorem resolve_most : resolve a n ≤ n := by
  rw [resolve]
  omega

theorem resolve_length : resolve n n = n := by
  rw [resolve]
  omega

end

/-! A fresh array. -/

/-- One object more. -/
def Realm.beside (r : Realm) (o : Object) : Realm :=
  r.withHeap (r.heap.addObject o).2

/-- An array with such properties. -/
def arrayOf (t : PropertyTable) : Object :=
  { kind := .array, prototype := some Intrinsic.arrayPrototype, properties := t }

/-- The properties of an array that has no elements. -/
def emptyTable : PropertyTable :=
  .ofElements [("length", .lasting (.ofNat 0))] []

section

variable (m : Machine) (r : Realm) (t u : PropertyTable)

theorem beside_object : (r.beside (arrayOf t)).heap.object r.heap.objects.size = arrayOf t := by
  exact (Heap.object_add r.heap _ _).trans (if_pos rfl)

theorem beside_own (key : PropertyKey) : (r.beside (arrayOf t)).heap.own? r.heap.objects.size key = t.find? key := by
  have isArray : ((r.beside (arrayOf t)).heap.object r.heap.objects.size).kind.isArray = true := by
    rw [beside_object]
    rfl
  rw [Heap.array_own _ _ key isArray, beside_object]
  rfl

theorem beside_property (o : Object) (id : ObjectId) (key : PropertyKey) (known : id < r.heap.objects.size) :
    (r.beside o).heap.property? id key = r.heap.property? id key := by
  exact Heap.adds_property r.heap id key _ (Heap.object_adds r.heap o) known

theorem beside_has (o : Object) (id : ObjectId) (key : PropertyKey) (known : id < r.heap.objects.size) :
    (r.beside o).heap.hasProperty id key = r.heap.hasProperty id key := by
  rw [Heap.hasProperty, Heap.hasProperty, beside_property r o id key known]

-- What the array does not have itself it may have from the prototype of arrays.
theorem beside_inherited (key : PropertyKey) (P : Option Descriptor → Prop) (none : P none)
    (inherited : P (r.heap.property? Intrinsic.arrayPrototype key)) :
    P (((r.beside (arrayOf t)).heap.prototype? r.heap.objects.size).bind fun p =>
      (r.beside (arrayOf t)).heap.property? p key) := by
  rw [Heap.prototype?, beside_object, Heap.below, arrayOf, Option.filter_some]
  split
  · next known =>
    rw [Option.bind_some, beside_property r _ _ key (of_decide_eq_true known)]
    exact inherited
  · exact none

theorem beside_table (o : Object) :
    (r.heap.addObject o).2.withTable r.heap.objects.size u = (r.heap.addObject { o with properties := u }).2 := by
  rw [Heap.withTable, Heap.modifyProperties, Heap.modifyObject, Heap.addObject, Heap.addObject]
  congr 1
  refine Array.ext_getElem? fun i => ?_
  rw [Array.getElem?_modify, Array.getElem?_push, Array.getElem?_push]
  by_cases last : i = r.heap.objects.size
  · rw [if_pos last.symm, if_pos last, if_pos last]
    rfl
  · rw [if_neg (Ne.symm last), if_neg last, if_neg last]

/-! Writing to it. -/

-- Nothing on the way up refuses or takes over a write.
def Realm.Writes (r : Realm) (key : PropertyKey) : Prop :=
  (r.heap.property? Intrinsic.arrayPrototype key).all Descriptor.writable = true

theorem route_add (key : PropertyKey) (absent : t.find? key = none) (writes : r.Writes key) :
    route (r.beside (arrayOf t)).heap r.heap.objects.size key = .add := by
  have own := (beside_own r t key).trans absent
  have inherited := beside_inherited r t key (fun d => d.all Descriptor.writable = true) rfl writes
  have extensible : ((r.beside (arrayOf t)).heap.object r.heap.objects.size).extensible = true := by
    rw [beside_object]
    rfl
  rw [route, canPut, Heap.property_step, own, extensible, Option.none_or]
  dsimp only
  generalize (((r.beside (arrayOf t)).heap.prototype? r.heap.objects.size).bind fun p =>
    (r.beside (arrayOf t)).heap.property? p key) = found at inherited
  cases found with
  | none => rfl
  | some d =>
    cases d with
    | accessor g s e c => cases inherited
    | data v w e c =>
      obtain rfl : w = true := inherited
      rfl

-- Something on the way up can neither be written nor be told of a write.
def Realm.Refuses (r : Realm) (key : PropertyKey) : Prop :=
  ∃ d, r.heap.property? Intrinsic.arrayPrototype key = some d ∧ d.writable = false ∧ d.setter = none

theorem route_refuse (key : PropertyKey) (absent : t.find? key = none) (refuses : r.Refuses key) :
    route (r.beside (arrayOf t)).heap r.heap.objects.size key = .refuse := by
  obtain ⟨d, found, fixed, noSetter⟩ := refuses
  have known : Intrinsic.arrayPrototype < r.heap.objects.size := by
    by_contra unknown
    cases (Heap.property_unknown r.heap _ key unknown).symm.trans found
  have own := (beside_own r t key).trans absent
  have link : (r.beside (arrayOf t)).heap.prototype? r.heap.objects.size = some Intrinsic.arrayPrototype := by
    rw [Heap.prototype?, beside_object]
    exact Option.filter_eq_some_iff.mpr ⟨rfl, decide_eq_true known⟩
  have inherited := (beside_property r (arrayOf t) _ key known).trans found
  have refused : canPut (r.beside (arrayOf t)).heap r.heap.objects.size key = false := by
    rw [canPut, own, link]
    dsimp only
    rw [Option.bind_some, inherited]
    cases d with
    | data v w e c =>
      obtain rfl : w = false := fixed
      exact Bool.and_false _
    | accessor g s e c =>
      obtain rfl : s = none := noSetter
      rfl
  rw [route, own]
  dsimp only
  rw [refused]
  rfl

theorem put_refused (key : PropertyKey) (v : Value) (absent : t.find? key = none) (refuses : r.Refuses key) :
    put r.heap.objects.size key v true m (r.beside (arrayOf t)) =
      .error (.thrown (.object (r.beside (arrayOf t)).heap.objects.size))
        ((r.beside (arrayOf t)).withError .typeError ("Cannot assign to read only property '" ++ key.text ++ "'")) := by
  rw [put, heap_at, route_refuse r t key absent refuses]
  exact throw_at m _ .typeError _

section

variable (n : Nat) (measured : t.Measured n true false false) (bounded : t.Bounded n)
include measured bounded

theorem beside_measured : (r.beside (arrayOf t)).heap.MeasuredArray r.heap.objects.size n true false := by
  refine ⟨?_, ?_, ?_⟩ <;> rw [beside_object]
  · rfl
  · exact measured
  · exact bounded

-- An element behind all others, which the length follows.
theorem put_element (i : Nat) (v : Value) (beyond : n ≤ i) (writes : r.Writes (.index i)) :
    ∃ u, put r.heap.objects.size (.index i) v true m (r.beside (arrayOf t)) = .ok () (r.beside (arrayOf u)) ∧
      (t.insert (.index i) (.free v)).Relengthened (i + 1) true false u := by
  have has := beside_measured r t n measured bounded
  have absent : t.find? (.index i) = none := by
    refine Option.eq_none_iff_forall_ne_some.mpr fun d there => ?_
    exact absurd (bounded i d there) (Nat.not_lt_of_le beyond)
  have own := (beside_own r t (.index i)).trans absent
  have stored : (r.beside (arrayOf t)).heap.defineOrdinary r.heap.objects.size (.index i) (.ofDescriptor (.free v)) =
      (true, (r.beside (arrayOf (t.insert (.index i) (.free v)))).heap) := by
    rw [Heap.defineOrdinary, Heap.judge, own]
    dsimp only
    rw [beside_object]
    change (true, (r.beside (arrayOf t)).heap.store r.heap.objects.size (.index i) (.free v)) = _
    rw [Heap.store, Heap.table_modify, beside_object]
    exact congrArg (Prod.mk true) (beside_table r _ (arrayOf t))
  obtain ⟨accepts, _, stores⟩ := Heap.element_defined _ _ n true false has i (.ofDescriptor (.free v))
  rw [stored] at accepts stores
  have accepted := accepts.mpr ⟨.inr rfl, rfl⟩
  obtain ⟨u, is, relengthened⟩ := stores accepted
  rw [beside_object, if_pos beyond] at relengthened
  refine ⟨u, ?_, relengthened⟩
  have ends := define_own_ends m (r.beside (arrayOf t)) r.heap.objects.size (.index i) (.ofDescriptor (.free v)) true
    (.inr (.inl PropertyKey.noConfusion))
  simp only [Heap.define, array_kind _ _ n true false has, accepted, is] at ends
  rw [put, heap_at, route_add r t _ absent writes]
  refine discard_ok _ m _ _ true (ends.trans ?_)
  change EStateM.Result.ok true _ = .ok true _
  congr 1
  exact congrArg (Realm.withHeap r) (beside_table r u (arrayOf (t.insert (.index i) (.free v))))

-- The length of an array becomes no less.
theorem set_length (k : Nat) (more : n ≤ k) (fits : k < Number.wordCount) :
    ∃ u, setLength r.heap.objects.size (Float.ofNat k) m (r.beside (arrayOf t)) = .ok () (r.beside (arrayOf u)) ∧
      t.Relengthened k true false u := by
  have has := beside_measured r t n measured bounded
  have found : ((r.beside (arrayOf t)).heap.object r.heap.objects.size).properties.find? .length =
      some (.data (.ofNat n) true false false) := by
    rw [beside_object]
    exact measured.found
  have ends := define_length_ends m (r.beside (arrayOf t)) r.heap.objects.size n true false has
    (.ofValue (.ofNat k)) true (.ofNat k) rfl rfl
  have number := Number.value_number _ _ (Number.natural_value k (Nat.lt_of_lt_of_le fits (by decide)))
  have isLength := (is_length_iff _).mpr ⟨k, fits, (Number.equal_iff _ _).mpr ⟨number, number, .inl rfl⟩⟩
  have longer := (Heap.length_defined _ _ n true false has (.ofValue (.ofNat k)) k fits rfl).longer more
  obtain ⟨u, ordinary, relengthened⟩ := Heap.array_relengthened _ _ n false has.isArray k
    ((Definition.ofValue (.ofNat k)).withValue (.ofNat k)) rfl found rfl
    (Heap.allowed_length false _ _ rfl nofun nofun)
  rw [beside_object] at relengthened
  refine ⟨u, ?_, relengthened⟩
  simp only [Value.primitiveNumber, Value.ofNat, isLength, if_true, Number.word_whole k fits] at ends longer ordinary
  rw [← longer, Prod.mk.injEq] at ordinary
  rw [ordinary.1, ordinary.2] at ends
  have replaced : route (r.beside (arrayOf t)).heap r.heap.objects.size .length = .replace := by
    rw [route, beside_own, measured.found]
  rw [setLength, put, heap_at, replaced]
  refine discard_ok _ m _ _ true (ends.trans ?_)
  change EStateM.Result.ok true _ = .ok true _
  congr 1
  exact congrArg (Realm.withHeap r) (beside_table r u (arrayOf t))

end

end

/-! Copying. -/

/-- The own properties of a copy: the elements that there are, and the length. -/
def copied (present : Nat → Bool) (value : Nat → Value) (n : Nat) : PropertyKey → Option Descriptor
  | .index j => if j < n ∧ present j = true then some (.free (value j)) else none
  | .name s => if s = "length" then some (.lasting (.ofNat n)) else none

/-- Reading an element gives a value and leaves everything as it is, whatever object has been added. -/
def Reads (m : Machine) (r : Realm) (id : ObjectId) (i : Nat) (v : Value) : Prop :=
  ∀ o, get id (.index i) m (r.beside o) = .ok v (r.beside o)

-- So many positions have been gone through. The array is as long as its last element needs.
structure CopiedTo (present : Nat → Bool) (value : Nat → Value) (p n : Nat) (t : PropertyTable) : Prop where
  within : n ≤ p
  covers : ∀ j < p, present j = true → j < n
  shows : ∀ key, t.find? key = copied present value n key

section

variable (present : Nat → Bool) (value : Nat → Value) (p n : Nat) (t u : PropertyTable)

theorem copied_name (s : String) (other : PropertyKey.name s ≠ .length) : copied present value n (.name s) = none := by
  exact if_neg fun same => other (congrArg PropertyKey.name same)

theorem copied_to_none : CopiedTo present value 0 0 emptyTable := by
  refine ⟨Nat.le_refl 0, nofun, fun key => ?_⟩
  cases key with
  | index j => simp [emptyTable, PropertyTable.ofElements, PropertyTable.find?, copied]
  | name s => simp [emptyTable, PropertyTable.ofElements, PropertyTable.find?, copied, Dictionary.find?, eq_comm]

variable (filled : CopiedTo present value p n t)
include filled

theorem copied_to_measured (fits : p < Number.wordCount) : t.Measured n true false false := by
  exact ⟨Nat.lt_of_le_of_lt filled.within fits, filled.shows .length⟩

theorem copied_to_bounded : t.Bounded n := by
  intro i d found
  rw [filled.shows, copied] at found
  split at found
  · next there => exact there.1
  · cases found

theorem copied_to_hole (absent : present p = false) : CopiedTo present value (p + 1) n t := by
  refine ⟨Nat.le_succ_of_le filled.within, fun j before there => ?_, filled.shows⟩
  refine filled.covers j (Nat.lt_of_le_of_ne (Nat.le_of_lt_succ before) ?_) there
  rintro rfl
  rw [absent] at there
  cases there

-- Between the last element and the position that is reached there is none.
theorem copied_to_find (key : PropertyKey) (other : key ≠ .length) : t.find? key = copied present value p key := by
  rw [filled.shows]
  cases key with
  | name s => rw [copied_name _ _ _ s other, copied_name _ _ _ s other]
  | index j =>
    have within := filled.within
    exact if_congr (and_congr_left fun there =>
      ⟨fun before => Nat.lt_of_lt_of_le before within, fun before => filled.covers j before there⟩) rfl rfl

theorem copied_to_element (there : present p = true)
    (put : (t.insert (.index p) (.free (value p))).Relengthened (p + 1) true false u) :
    CopiedTo present value (p + 1) (p + 1) u := by
  refine ⟨Nat.le_refl _, fun j before _ => before, fun key => ?_⟩
  by_cases length : key = .length
  · subst length
    exact put.length
  · rw [put.others key length, PropertyTable.find_insert, copied_to_find present value p n t filled key length]
    cases key with
    | name s => rw [if_neg PropertyKey.noConfusion, copied_name _ _ _ s length, copied_name _ _ _ s length]
    | index j =>
      by_cases here : p = j
      · subst here
        rw [if_pos rfl, copied, if_pos ⟨Nat.lt_succ_self p, there⟩]
      · have other : PropertyKey.index p ≠ .index j := fun same => here (PropertyKey.index.inj same)
        rw [if_neg other]
        exact if_congr (and_congr_left' (by omega)) rfl rfl

end

section

variable (m : Machine) (r : Realm) (o : ObjectId) (known : o < r.heap.objects.size) (s : Nat) (value : Nat → Value)
include known

-- Positions are gone through one by one; what is still to come starts where they end.
theorem copy_elements (count more p n : Nat) (t : PropertyTable) (last : s + (p + count) ≤ indexBound)
    (filled : CopiedTo (fun j => r.heap.hasProperty o (.index (s + j))) value p n t)
    (reads : ∀ j < p + count, r.heap.hasProperty o (.index (s + j)) = true → Reads m r o (s + j) (value j))
    (writes : ∀ j < p + count, r.heap.hasProperty o (.index (s + j)) = true → r.Writes (.index j)) :
    ∃ n' u, copyElements o r.heap.objects.size (s + p) p (count + more) m (r.beside (arrayOf t)) =
        copyElements o r.heap.objects.size (s + (p + count)) (p + count) more m (r.beside (arrayOf u)) ∧
      CopiedTo (fun j => r.heap.hasProperty o (.index (s + j))) value (p + count) n' u := by
  induction count generalizing p n t with
  | zero =>
    rw [Nat.zero_add]
    exact ⟨n, t, rfl, filled⟩
  | succ count hyp =>
    have small : indexBound < Number.wordCount := by
      decide
    have key : PropertyKey.ofNat (s + p) = .index (s + p) := if_pos (by omega)
    have key' : PropertyKey.ofNat p = .index p := if_pos (by omega)
    have has := beside_has r (arrayOf t) o (.index (s + p)) known
    rw [show p + (count + 1) = p + 1 + count by omega] at last reads writes ⊢
    rw [show count + 1 + more = count + more + 1 by omega, copyElements, heap_at, key, key', has]
    cases there : r.heap.hasProperty o (.index (s + p)) with
    | false => exact hyp (p + 1) n t last (copied_to_hole _ value p n t filled there) reads writes
    | true =>
      have measured := copied_to_measured _ value p n t filled (by omega)
      have bounded := copied_to_bounded _ value p n t filled
      obtain ⟨u, put, relengthened⟩ := put_element m r t n measured bounded p (value p) filled.within
        (writes p (by omega) there)
      have filled' := copied_to_element _ value p n t u filled there relengthened
      obtain ⟨n', u', rest, done⟩ := hyp (p + 1) (p + 1) u last filled' reads writes
      refine ⟨n', u', ?_, done⟩
      rw [if_pos rfl, bind_at, reads p (by omega) there]
      dsimp only
      rw [bind_at, put]
      exact rest

theorem copy_refused (more p n : Nat) (t : PropertyTable) (last : s + p < indexBound)
    (filled : CopiedTo (fun j => r.heap.hasProperty o (.index (s + j))) value p n t)
    (there : r.heap.hasProperty o (.index (s + p)) = true) (reads : Reads m r o (s + p) (value p))
    (refuses : r.Refuses (.index p)) :
    copyElements o r.heap.objects.size (s + p) p (more + 1) m (r.beside (arrayOf t)) =
      .error (.thrown (.object (r.beside (arrayOf t)).heap.objects.size)) ((r.beside (arrayOf t)).withError .typeError
        ("Cannot assign to read only property '" ++ toString p ++ "'")) := by
  have key : PropertyKey.ofNat (s + p) = .index (s + p) := if_pos (by omega)
  have key' : PropertyKey.ofNat p = .index p := if_pos (by omega)
  have absent : t.find? (.index p) = none := by
    have within := filled.within
    rw [filled.shows, copied, if_neg (by omega)]
  have refused := put_refused m r t (.index p) (value p) absent refuses
  rw [copyElements, heap_at, key, key', beside_has r (arrayOf t) o _ known, if_pos there, bind_at, reads]
  dsimp only
  rw [bind_at, refused]
  rfl

end

/-! The range. -/

/-- An object of such a length, and a start and an end that are integers; a missing end is the length. -/
structure Sliced (m : Machine) (r₀ r : Realm) (o : ObjectId) (args : List Value) (n : Nat) (a b : Int) : Prop where
  known : o < r.heap.objects.size
  length : lengthOfObject o m r₀ = .ok n r
  start : ∃ x, argument args 0 = .number x ∧ Number.Integral x a
  stop : argument args 1 = .undefined ∧ b = n ∨ ∃ y, argument args 1 = .number y ∧ Number.Integral y b

/-- The range from `s` on is in a fresh array, and nothing else is changed. -/
def Copies (m : Machine) (r₀ r : Realm) (o : ObjectId) (args : List Value) (s e : Nat) (value : Nat → Value) : Prop :=
  s + (e - s) ≤ indexBound ∧
    ∃ t, ArrayFunction.run .slice (.object o) args m r₀ = .ok (.object r.heap.objects.size) (r.beside (arrayOf t)) ∧
      ∀ key, t.find? key =
        copied (fun j => r.heap.hasProperty o (.index (s + j))) (fun j => value (s + j)) (e - s) key

theorem range_end_at (m : Machine) (r : Realm) (v : Value) (n : Nat) (fits : n < Number.wordCount) (b : Int)
    (stop : v = .undefined ∧ b = n ∨ ∃ y, v = .number y ∧ Number.Integral y b) :
    ∃ y, rangeEnd v (Float.ofNat n) m r = .ok y r ∧ Number.clamp indexBound y = resolve b n := by
  rcases stop with ⟨rfl, rfl⟩ | ⟨y, rfl, integral⟩
  · exact ⟨Float.ofNat n, rfl, (clamp_length n fits).trans (resolve_length n).symm⟩
  · exact ⟨_, rfl, clamp_relative y b n fits integral⟩

section

variable (m : Machine) (r₀ r : Realm) (o : ObjectId) (args : List Value) (n : Nat) (a b : Int)
  (given : Sliced m r₀ r o args n a b)
include given

theorem length_fits : n < Number.wordCount := by
  obtain ⟨v, between, -, word⟩ := bind_ok _ _ m r₀ r n given.length
  obtain ⟨x, between', -, is⟩ := bind_ok _ _ m between r n word
  cases is
  exact Number.word_fits x

-- Neither the last position that is read nor the last that is written is beyond a word.
theorem range_fits : resolve a n + (resolve b n - resolve a n) ≤ indexBound := by
  have within : n ≤ indexBound := Nat.le_sub_one_of_lt (length_fits m r₀ r o args n a b given)
  have most := resolve_most a n
  have most' := resolve_most b n
  omega

-- All that is converted is converted before the array is made.
theorem slice_at : ArrayFunction.run .slice (.object o) args m r₀ = (do
    copyElements o r.heap.objects.size (resolve a n) 0 (resolve b n - resolve a n)
    setLength r.heap.objects.size (Float.ofNat (resolve b n - resolve a n))
    return .object r.heap.objects.size : Run Value) m (r.beside (arrayOf emptyTable)) := by
  have fits := length_fits m r₀ r o args n a b given
  obtain ⟨x, start, integral⟩ := given.start
  obtain ⟨y, stop, clamped⟩ := range_end_at m r _ n fits b given.stop
  have started : toInteger (argument args 0) m r = .ok (Number.toInteger x) r := by
    rw [start]
    rfl
  have sliced : sliceElements o (argument args 0) (argument args 1) m r₀ = (do
      copyElements o r.heap.objects.size (resolve a n) 0 (resolve b n - resolve a n)
      setLength r.heap.objects.size (Float.ofNat (resolve b n - resolve a n))
      return r.heap.objects.size : Run ObjectId) m (r.beside (arrayOf emptyTable)) := by
    rw [sliceElements, bind_at, given.length]
    dsimp only
    rw [bind_at, started]
    dsimp only
    rw [bind_at, stop]
    dsimp only
    rw [clamp_relative x a n fits integral, clamped]
    rfl
  rw [ArrayFunction.run]
  change (do return .object (← sliceElements o (argument args 0) (argument args 1)) : Run Value) m r₀ = _
  rw [bind_at, sliced, bind_at, bind_at]
  cases copyElements o r.heap.objects.size (resolve a n) 0 (resolve b n - resolve a n) m (r.beside (arrayOf emptyTable)) with
  | error e r' => rfl
  | ok done r' =>
    dsimp only
    rw [bind_at, bind_at]
    cases setLength r.heap.objects.size (Float.ofNat (resolve b n - resolve a n)) m r' <;> rfl

/-- The range from the start to the end, both taken relative to the length, is copied to a fresh array. It has the
properties that there are in the range, whether the object has them itself or inherits them, and no others but its
length. The copying goes through writes, so that no position must be read-only or an accessor on the prototype. -/
theorem slice_copies (value : Nat → Value)
    (reads : ∀ i, resolve a n ≤ i → i < resolve b n → r.heap.hasProperty o (.index i) = true → Reads m r o i (value i))
    (writes : ∀ j, j < resolve b n - resolve a n → r.heap.hasProperty o (.index (resolve a n + j)) = true →
      r.Writes (.index j)) :
    Copies m r₀ r o args (resolve a n) (resolve b n) value := by
  have last := range_fits m r₀ r o args n a b given
  have small : indexBound < Number.wordCount := by
    decide
  obtain ⟨k, t, copy, filled⟩ := copy_elements m r o given.known (resolve a n) (fun j => value (resolve a n + j))
    (resolve b n - resolve a n) 0 0 0 _ (by omega) (copied_to_none _ _) (fun j inside => reads _ (by omega) (by omega))
    (fun j inside => writes j (by omega))
  have copy : copyElements o r.heap.objects.size (resolve a n) 0 (resolve b n - resolve a n) m
      (r.beside (arrayOf emptyTable)) = .ok () (r.beside (arrayOf t)) := copy
  rw [Nat.zero_add] at filled
  have measured := copied_to_measured _ _ _ _ _ filled (by omega)
  obtain ⟨u, set, relengthened⟩ := set_length m r t k measured (copied_to_bounded _ _ _ _ _ filled)
    (resolve b n - resolve a n) filled.within (by omega)
  refine ⟨last, u, ?_, fun key => ?_⟩
  · rw [slice_at m r₀ r o args n a b given, bind_at, copy]
    dsimp only
    rw [bind_at, set]
    rfl
  · by_cases length : key = .length
    · subst length
      exact relengthened.length
    · rw [relengthened.others key length]
      exact copied_to_find _ _ _ k t filled key length

-- The first position that cannot be written is a type error.
theorem slice_refused (value : Nat → Value) (p : Nat) (inside : p < resolve b n - resolve a n)
    (reads : ∀ j ≤ p, r.heap.hasProperty o (.index (resolve a n + j)) = true →
      Reads m r o (resolve a n + j) (value (resolve a n + j)))
    (writes : ∀ j < p, r.heap.hasProperty o (.index (resolve a n + j)) = true → r.Writes (.index j))
    (there : r.heap.hasProperty o (.index (resolve a n + p)) = true) (refuses : r.Refuses (.index p)) :
    ∃ t, ArrayFunction.run .slice (.object o) args m r₀ =
      .error (.thrown (.object (r.beside (arrayOf t)).heap.objects.size)) ((r.beside (arrayOf t)).withError .typeError
        ("Cannot assign to read only property '" ++ toString p ++ "'")) := by
  have last := range_fits m r₀ r o args n a b given
  obtain ⟨k, t, copy, filled⟩ := copy_elements m r o given.known (resolve a n) (fun j => value (resolve a n + j))
    p (resolve b n - resolve a n - p - 1 + 1) 0 0 _ (by omega) (copied_to_none _ _)
    (fun j before => reads j (by omega)) (fun j before => writes j (by omega))
  rw [Nat.zero_add] at copy filled
  have refused := copy_refused m r o given.known (resolve a n) (fun j => value (resolve a n + j))
    (resolve b n - resolve a n - p - 1) p k t (by omega) filled there (reads p (Nat.le_refl p) there) refuses
  rw [refused, Nat.add_zero, show p + (resolve b n - resolve a n - p - 1 + 1) = resolve b n - resolve a n by omega] at copy
  refine ⟨t, ?_⟩
  rw [slice_at m r₀ r o args n a b given, bind_at, copy]

end

/-! Small arrays. -/

-- An element that has no getter is read without running code.
theorem reads_plain (m : Machine) (r : Realm) (o : ObjectId) (i : Nat) (d : Descriptor)
    (known : o < r.heap.objects.size) (plain : ∀ mapped, r.heap.kind o ≠ .arguments mapped)
    (found : r.heap.property? o (.index i) = some d) (noGetter : d.getter = none) : Reads m r o i d.value := by
  intro fresh
  have same : (r.beside fresh).heap.kind o = r.heap.kind o :=
    congrArg Object.kind (Heap.object_add_known r.heap fresh o known)
  have free : (r.beside fresh).heap.aliased? o (.index i) = none := by
    rw [Heap.aliased?]
    unfold Heap.alias?
    rw [same]
    cases kind : r.heap.kind o with
    | arguments mapped => exact absurd kind (plain mapped)
    | _ => rfl
  rw [get, heap_at, free]
  dsimp only
  rw [heap_at, beside_property r fresh o _ known, found]
  cases d with
  | data v w e c => rfl
  | accessor g s e c =>
    obtain rfl : g = none := noGetter
    rfl

-- Two elements, and a first property of the prototype of arrays.
def pairBelow (inherited : Option Descriptor) : Realm :=
  { heap := { objects := #[{}, {}, { properties := { elements := inherited.elim ∅ fun d => Std.TreeMap.empty.insert 0 d } },
      arrayOf (.ofElements [("length", .lasting (.ofNat 2))] [some .null, some (.boolean true)])] }, config := {} }

theorem pair_length (inherited : Option Descriptor) :
    lengthOfObject 3 idleMachine (pairBelow inherited) = .ok 2 (pairBelow inherited) := by
  change EStateM.Result.ok (Number.toUint32 (Float.ofNat 2)) _ = _
  rw [Number.word_whole 2 (by decide)]

theorem minus_one : Number.Integral (-1.0) (-1) := by
  exact ⟨⟨true, 2 ^ 52, -52⟩, rfl, by decide, by decide⟩

theorem pair_sliced (inherited : Option Descriptor) : Sliced idleMachine (pairBelow inherited) (pairBelow inherited) 3
    [.number (-1.0)] 2 (-1) 2 := by
  exact ⟨Nat.lt_succ_self 3, pair_length inherited, ⟨_, rfl, minus_one⟩, .inl ⟨rfl, rfl⟩⟩

def pairValue (i : Nat) : Value :=
  if i = 0 then .null else .boolean true

theorem pair_reads (inherited : Option Descriptor) (i : Nat) (inside : i = 0 ∨ i = 1) :
    (pairBelow inherited).heap.hasProperty 3 (.index i) = true ∧
      Reads idleMachine (pairBelow inherited) 3 i (pairValue i) := by
  have own : (pairBelow inherited).heap.own? 3 (.index i) = some (.free (pairValue i)) := by
    rcases inside with rfl | rfl <;> rfl
  have found : (pairBelow inherited).heap.property? 3 (.index i) = some (.free (pairValue i)) := by
    rw [Heap.property_step, own]
    rfl
  refine ⟨Option.isSome_iff_exists.mpr ⟨_, found⟩, ?_⟩
  exact reads_plain idleMachine (pairBelow inherited) 3 i _ (Nat.lt_succ_self 3) nofun found rfl

theorem pair_range (inherited : Option Descriptor) (i : Nat) (least : resolve (-1) 2 ≤ i) (most : i < resolve 2 2) :
    Reads idleMachine (pairBelow inherited) 3 i (pairValue i) := by
  have least : 1 ≤ i := least
  have most : i < 2 := most
  exact (pair_reads inherited i (by omega)).2

-- The last of two elements.
theorem slice_copies_last : ∃ t, ArrayFunction.run .slice (.object 3) [.number (-1.0)] idleMachine (pairBelow none) =
    .ok (.object 4) ((pairBelow none).beside (arrayOf t)) ∧
      t.find? .length = some (.lasting (.ofNat 1)) ∧ t.find? (.index 0) = some (.free (.boolean true)) := by
  obtain ⟨-, t, run, shows⟩ := slice_copies idleMachine (pairBelow none) (pairBelow none) 3 [.number (-1.0)] 2 (-1) 2
    (pair_sliced none) pairValue (fun i least most _ => pair_range none i least most) (fun _ _ _ => rfl)
  refine ⟨t, run, shows .length, (shows (.index 0)).trans ?_⟩
  rw [copied, if_pos ⟨by decide, (pair_reads none 1 (.inr rfl)).1⟩]
  rfl

-- What is read-only on the prototype of arrays cannot be copied over.
theorem slice_copies_stopped :
    ¬ ∀ (m : Machine) (r₀ r : Realm) (o : ObjectId) (args : List Value) (n : Nat) (a b : Int) (value : Nat → Value),
      Sliced m r₀ r o args n a b →
      (∀ i, resolve a n ≤ i → i < resolve b n → r.heap.hasProperty o (.index i) = true → Reads m r o i (value i)) →
      Copies m r₀ r o args (resolve a n) (resolve b n) value := by
  intro copies
  have given := pair_sliced (some (.data .null false true true))
  have refuses : (pairBelow (some (.data .null false true true))).Refuses (.index 0) :=
    ⟨.data .null false true true, rfl, rfl, rfl⟩
  obtain ⟨-, t, run, -⟩ := copies idleMachine _ _ 3 [.number (-1.0)] 2 (-1) 2 pairValue given
    fun i least most _ => pair_range _ i least most
  obtain ⟨u, refused⟩ := slice_refused idleMachine _ _ 3 [.number (-1.0)] 2 (-1) 2 given pairValue 0 (by decide)
    (fun j least _ => pair_range _ _ (Nat.le_add_right _ j) (by
      obtain rfl : j = 0 := Nat.le_zero.mp least
      decide))
    nofun (pair_reads _ 1 (.inr rfl)).1 refuses
  cases run.symm.trans refused

end Ecma
