import Ecma.Operation.Property
import Ecma.Proofs.Run.Course

set_option autoImplicit false

/-!
Refusals. An operation that is asked to throw when it is refused does the same as one that is not, up to
the moment of the refusal: then it throws a new type error where the other goes on and says so.
-/

namespace Ecma

open Run

/-- How the result of an operation that throws when it is refused compares with that of the same operation
that gives an answer instead. -/
inductive Reported {α : Type} (refused : α) :
    EStateM.Result Interrupt Realm α → EStateM.Result Interrupt Realm α → Prop
  | same (result : EStateM.Result Interrupt Realm α) : Reported refused result result
  | thrown (r : Realm) (message : String) :
      Reported refused
        (.error (.thrown (.object r.heap.objects.size)) (r.withError .typeError message)) (.ok refused r)

-- Two runs that differ in their reports only, wherever they start.
def OnlyReports {α : Type} (refused : α) (loud quiet : Run α) : Prop :=
  ∀ (m : Machine) (r : Realm), Reported refused (loud m r) (quiet m r)

section

variable {α β : Type} {refused : α}

theorem reports_same (x : Run α) : OnlyReports refused x x := by
  exact fun m r => .same _

theorem reports_refusal (message : String) : OnlyReports refused (throwTypeError message) (pure refused) := by
  intro m r
  rw [throwTypeError, throw_at]
  exact .thrown r message

-- What is done after an error is of no account.
theorem reports_failure (message : String) (answer : α) :
    OnlyReports answer (throwTypeError message >>= fun _ : PUnit => pure answer) (pure answer) := by
  intro m r
  rw [bind_at, throwTypeError, throw_at]
  exact .thrown r message

theorem reports_bind (x : Run β) (f g : β → Run α) (each : ∀ b, OnlyReports refused (f b) (g b)) :
    OnlyReports refused (x >>= f) (x >>= g) := by
  intro m r
  rw [bind_at, bind_at]
  cases x m r with
  | ok b s => exact each b m s
  | error e s => exact .same _

theorem reports_discard (loud quiet : Run α) (only : OnlyReports refused loud quiet) :
    OnlyReports () (discard loud) (discard quiet) := by
  intro m r
  change Reported () (EStateM.map (Function.const α ()) (loud m) r) (EStateM.map (Function.const α ()) (quiet m) r)
  have compared := only m r
  rw [EStateM.map, EStateM.map]
  generalize loud m r = first, quiet m r = second at compared
  cases compared with
  | same => exact .same _
  | thrown s message => exact .thrown s message

theorem reports_ite (c : Prop) [Decidable c] (x x' y y' : Run α) (first : OnlyReports refused x x')
    (second : OnlyReports refused y y') :
    OnlyReports refused (if c then x else y) (if c then x' else y') := by
  split
  · exact first
  · exact second

end

/-! Definitions. -/

theorem accept_reports (key : PropertyKey) (accepted : Bool) :
    OnlyReports false (accept key true accepted) (accept key false accepted) := by
  cases accepted with
  | true => exact reports_same _
  | false =>
    exact reports_failure _ false

-- The length is converted, and the elements behind it deleted, before anything is reported.
theorem define_length_reports (id : ObjectId) (d : Definition) (v : Value) :
    OnlyReports false (defineArrayLength id d v true) (defineArrayLength id d v false) := by
  refine reports_bind _ _ _ fun h => reports_bind _ _ _ fun length => ?_
  have decided (x : Run Bool) : OnlyReports false (x >>= accept .length true) (x >>= accept .length false) :=
    reports_bind x _ _ fun accepted => accept_reports .length accepted
  exact reports_ite _ _ _ _ _ (reports_bind _ _ _ fun _ => decided _) (decided _)

theorem define_reports (id : ObjectId) (key : PropertyKey) (d : Definition) :
    OnlyReports false (defineOwn id key d true) (defineOwn id key d false) := by
  have decided : OnlyReports false (updateHeap (fun h => h.define id key d) >>= accept key true)
      (updateHeap (fun h => h.define id key d) >>= accept key false) :=
    reports_bind _ _ _ fun accepted => accept_reports key accepted
  refine reports_bind _ _ _ fun h => ?_
  cases d.value with
  | none => exact decided
  | some v => exact reports_ite _ _ _ _ _ (define_length_reports id d v) decided

/-! Deletions. -/

theorem delete_reports (id : ObjectId) (key : PropertyKey) :
    OnlyReports false (deleteOwn id key true) (deleteOwn id key false) := by
  refine reports_bind _ _ _ fun gone => ?_
  cases gone with
  | true => exact reports_same _
  | false =>
    exact reports_failure _ false

/-! Writes. -/

theorem read_only_reports (key : PropertyKey) : OnlyReports () (readOnly key) (pure ()) := by
  exact reports_refusal _

theorem put_reports (id : ObjectId) (key : PropertyKey) (v : Value) :
    OnlyReports () (put id key v true) (put id key v false) := by
  refine reports_bind _ _ _ fun h => ?_
  cases route h id key with
  | replace => exact reports_discard _ _ (define_reports id key _)
  | refuse => exact read_only_reports key
  | callSetter setter => exact reports_same _
  | add => exact reports_discard _ _ (define_reports id key _)

-- A primitive is wrapped first, or is refused for what it is whether or not it should throw.
theorem put_of_reports (base : Value) (key : PropertyKey) (v : Value) :
    OnlyReports () (putOf base key v true) (putOf base key v false) := by
  have refused := read_only_reports key
  unfold putOf
  split
  · exact put_reports _ key v
  · refine reports_bind _ _ _ fun id => reports_bind _ _ _ fun h =>
      reports_ite _ _ _ _ _ refused (reports_ite _ _ _ _ _ refused ?_)
    split
    · exact reports_same _
    · exact reports_refusal _

/-- Whether an operation is asked to throw changes nothing but the report of a refusal: on any machine and in
any realm, defining, deleting or writing a property does the same with and without it, or it throws a
new type error with it and says so without, in the same realm but for the error. -/
theorem throw_only_reports (m : Machine) (r : Realm) (id : ObjectId) (base : Value) (key : PropertyKey)
    (d : Definition) (v : Value) :
    Reported false (defineOwn id key d true m r) (defineOwn id key d false m r) ∧
      Reported false (deleteOwn id key true m r) (deleteOwn id key false m r) ∧
      Reported () (put id key v true m r) (put id key v false m r) ∧
      Reported () (putOf base key v true m r) (putOf base key v false m r) := by
  exact ⟨define_reports id key d m r, delete_reports id key m r, put_reports id key v m r,
    put_of_reports base key v m r⟩

end Ecma
