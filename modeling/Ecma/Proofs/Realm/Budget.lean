import Ecma.Proofs.Number.Comparison
import Ecma.Proofs.Realm.Lock
import Ecma.Proofs.Run.Budget
import Ecma.Proofs.Run.Coded
import Ecma.Proofs.Run.Forgetful

set_option autoImplicit false

/-!
What scripts can do to the limits. Where no number between zero and one is asked for, there is always room for
one context and one step, and the simplest programs run. Such a number asks for a limit of nothing.

The budget of an entry. Entries that run code start with a fresh count of steps, whatever the entries before
have counted; the reading of a global goes on with the old one, and does the same as long as it does not run
out of steps. An entry that is held to a limit comes to an end.
-/

namespace Ecma

open Ecma.Program Ecma.Syntax Run

/-! Limits. -/

section

variable {host : HostFunction} {rounds : Nat}

end

/-! A program of one literal. -/

end Ecma

namespace Ecma

open Ecma.Program Run

-- The same outcome, and realms that differ in the count of steps alone.
def SameEntry (a b : Entry × Realm) : Prop :=
  a.1 = b.1 ∧ ∃ n, b.2 = a.2.withSteps n

theorem same_entry_refl (a : Entry × Realm) : SameEntry a a := by
  exact ⟨rfl, a.2.steps, rfl⟩

-- The reading of a global uses up the steps that are left, or the display of what it throws does.
def Realm.RunsOut (host : HostFunction) (name : String) (r : Realm) : Prop :=
  (∃ s, (Realm.readGlobal name).on host r = .error .stepsExceeded s) ∨
    ∃ v s s', (Realm.readGlobal name).on host r = .error (.thrown v) s ∧
      (Realm.displayRun v).on host (unwindTo r.depth s) = .error .stepsExceeded s'

theorem leave_contexts_with_steps (count : Nat) (s : Realm) (k : Nat) :
    leaveContexts count (s.withSteps k) = (leaveContexts count s).withSteps k := by
  induction count generalizing s with
  | zero => rfl
  | succ count hyp =>
    rw [leaveContexts, leaveContexts, (leave_with_steps s k).1]
    exact hyp _

theorem unwind_with_steps (depth : Nat) (s : Realm) (k : Nat) :
    unwindTo depth (s.withSteps k) = (unwindTo depth s).withSteps k := by
  exact leave_contexts_with_steps _ s k

theorem unwind_steps (depth : Nat) (s : Realm) : (unwindTo depth s).steps = s.steps := by
  obtain ⟨c, waiting, same⟩ := leave_contexts_only (s.depth - depth) s
  rw [unwindTo, same]

theorem finish_thrown (host : HostFunction) (depth : Nat) (v : Value) (s : Realm) :
    Realm.finish host depth .resolved (.error (.thrown v) s) =
      (.error (.uncaught v (Realm.display host v (unwindTo depth s)).1), (Realm.display host v (unwindTo depth s)).2) := by
  rfl

section

variable (host : HostFunction) (hosted : host.Coded false false)
include hosted

theorem display_follows (v : Value) (s : Realm) (k : Nat) (later : s.steps ≤ k)
    (enough : ∀ s', (Realm.displayRun v).on host (s.withSteps k) ≠ .error .stepsExceeded s') :
    (Realm.display host v s).1 = (Realm.display host v (s.withSteps k)).1 ∧
      ∃ n, (Realm.display host v (s.withSteps k)).2 = (Realm.display host v s).2.withSteps n := by
  have ends : Follows ((Realm.displayRun v).on host s) ((Realm.displayRun v).on host (s.withSteps k)) :=
    hosted_forgetful host hosted boundless boundless _ false (display_coded _ _ _ v) s k later
  rw [Realm.display, Realm.display]
  generalize (Realm.displayRun v).on host s = first at ends
  generalize (Realm.displayRun v).on host (s.withSteps k) = second at ends enough
  cases ends with
  | ok text s' n later' => exact ⟨rfl, n, rfl⟩
  | error e s' n later' =>
    dsimp only
    rw [show (s.withSteps k).depth = s.depth from rfl, unwind_with_steps]
    exact ⟨rfl, n, rfl⟩
  | exceeding _ s' => exact absurd rfl (enough s')

theorem global_follows (name : String) (r : Realm) (n : Nat) (later : r.steps ≤ n)
    (enough : ¬ (r.withSteps n).RunsOut host name) :
    SameEntry (r.globalValue host name) ((r.withSteps n).globalValue host name) := by
  have ends : Follows ((Realm.readGlobal name).on host r) ((Realm.readGlobal name).on host (r.withSteps n)) :=
    hosted_forgetful host hosted boundless boundless _ false (.native _ (get_native _ _)) r n later
  rw [Realm.globalValue, Realm.globalValue]
  rw [Realm.RunsOut] at enough
  generalize (Realm.readGlobal name).on host r = first at ends
  generalize (Realm.readGlobal name).on host (r.withSteps n) = second at ends enough
  cases ends with
  | ok v s k later' => exact ⟨rfl, k, rfl⟩
  | exceeding _ s => exact absurd (.inl ⟨s, rfl⟩) enough
  | error e s k later' =>
    have shorter : (unwindTo r.depth s).steps ≤ k := by
      rw [unwind_steps]
      exact later'
    have depth : (r.withSteps n).depth = r.depth := rfl
    rw [depth]
    cases e with
    | thrown v =>
      have shown := display_follows host hosted v (unwindTo r.depth s) k shorter fun s' exceeding => enough (.inr
        ⟨v, s.withSteps k, s', rfl, by rwa [depth, unwind_with_steps]⟩)
      rw [finish_thrown, finish_thrown, unwind_with_steps]
      refine ⟨?_, shown.2⟩
      dsimp only
      rw [shown.1]
    | stackOverflow v => exact ⟨rfl, k, unwind_with_steps r.depth s k⟩
    | stepsExceeded => exact ⟨rfl, k, unwind_with_steps r.depth s k⟩
    | exhausted => exact ⟨rfl, k, unwind_with_steps r.depth s k⟩

end

-- Whatever earlier entries have counted, an entry that runs code does the same and leaves the same realm; the
-- reading of a global, which goes on counting, does so unless it runs out from the greater count.
theorem entries_forget_steps (host : HostFunction) (r : Realm) (m n : Nat) :
    (∀ text filename, SameEntry ((r.withSteps m).evaluateProgram host text filename)
      ((r.withSteps n).evaluateProgram host text filename)) ∧
    (∀ f this args, SameEntry ((r.withSteps m).callFunction host f this args)
      ((r.withSteps n).callFunction host f this args)) ∧
    (∀ name args, SameEntry ((r.withSteps m).callHandler host name args)
      ((r.withSteps n).callHandler host name args)) ∧
    (host.Coded false false → m ≤ n → ∀ name, ¬ (r.withSteps n).RunsOut host name →
      SameEntry ((r.withSteps m).globalValue host name) ((r.withSteps n).globalValue host name)) := by
  have called (f this : Value) (args : List Value) : SameEntry ((r.withSteps m).callFunction host f this args)
      ((r.withSteps n).callFunction host f this args) :=
    same_entry_refl _
  refine ⟨fun text filename => ?_, called, fun name args => ?_, fun hosted later name enough => ?_⟩
  · delta Realm.evaluateProgram
    dsimp only [Realm.withSteps]
    split
    · exact ⟨rfl, n, rfl⟩
    · exact same_entry_refl _
  · rw [Realm.callHandler, Realm.callHandler]
    cases found : r.handlers.find? name with
    | none =>
      have missing (k : Nat) : (r.withSteps k).handlers.find? name = none := found
      rw [missing, missing]
      exact ⟨rfl, n, rfl⟩
    | some handler =>
      have there (k : Nat) : (r.withSteps k).handlers.find? name = some handler := found
      rw [there, there]
      dsimp only
      by_cases callable : r.heap.isCallable handler = true
      · have calls (k : Nat) : (r.withSteps k).heap.isCallable handler = true := callable
        rw [if_pos (calls m), if_pos (calls n)]
        exact called _ _ _
      · have refuses (k : Nat) : ¬ (r.withSteps k).heap.isCallable handler = true := callable
        rw [if_neg (refuses m), if_neg (refuses n)]
        exact ⟨rfl, n, rfl⟩
  · exact global_follows host hosted name (r.withSteps m) n later enough

-- A name that stands for nothing is read without a step, however many have been counted.
theorem entries_forget_steps_spent :
    callingHost.Coded false false ∧ 0 ≤ 7 ∧
      ¬ (Realm.withSteps { heap := {}, config := { stepsLimit := some 1 } } 7).RunsOut callingHost "x" ∧
      SameEntry ((Realm.withSteps { heap := {}, config := { stepsLimit := some 1 } } 0).globalValue callingHost "x")
        ((Realm.withSteps { heap := {}, config := { stepsLimit := some 1 } } 7).globalValue callingHost "x") := by
  have hosted : callingHost.Coded false false := fun _ _ _ => .native _ (call_native _ _ _)
  have read : (Realm.readGlobal "x").on callingHost
      (Realm.withSteps { heap := {}, config := { stepsLimit := some 1 } } 7) =
        .ok .undefined (Realm.withSteps { heap := {}, config := { stepsLimit := some 1 } } 7) := by
    rfl
  have enough : ¬ (Realm.withSteps { heap := {}, config := { stepsLimit := some 1 } } 7).RunsOut callingHost "x" := by
    rintro (⟨s, exceeding⟩ | ⟨v, s, s', exceeding, _⟩)
    · cases read.symm.trans exceeding
    · cases read.symm.trans exceeding
  exact ⟨hosted, Nat.zero_le 7, enough,
    (entries_forget_steps callingHost { heap := {}, config := { stepsLimit := some 1 } } 0 7).2.2.2 hosted
      (Nat.zero_le 7) "x" enough⟩

/-! Entries on machines of any bounds. -/

namespace Realm

end Realm

section

variable (host : HostFunction) (tame : host.Coded false false) (rounds d limit : Nat) (r : Realm)
  (limited : r.config.stepsLimit = some limit) (long : limit < rounds) (deep : 2 * r.config.depthLimit + 1 < d)
include tame limited long deep

end

end Ecma
