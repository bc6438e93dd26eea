import Ecma.Realm.Run

set_option autoImplicit false

/-!
The results of runs on a given machine: how a run that is made of two ends, and when two such runs do
the same.
-/

namespace Ecma.Run

variable {α β : Type}

theorem bind_at (x : Run α) (f : α → Run β) (m : Machine) (r : Realm) :
    (x >>= f) m r = match x m r with
      | .ok a r' => f a m r'
      | .error e r' => .error e r' := by
  change EStateM.bind (x m) (fun a => f a m) r = _
  rw [EStateM.bind]
  cases x m r <;> rfl

theorem pure_at (a : α) (m : Machine) (r : Realm) : (pure a : Run α) m r = .ok a r := by
  rfl

theorem heap_at (f : Heap → Run α) (m : Machine) (r : Realm) : (heap >>= f) m r = f r.heap m r := by
  rfl

theorem map_at (f : α → β) (x : Run α) (m : Machine) (r : Realm) :
    (f <$> x) m r = match x m r with
      | .ok a r' => .ok (f a) r'
      | .error e r' => .error e r' := by
  change EStateM.map f (x m) r = _
  rw [EStateM.map]
  cases x m r <;> rfl

theorem bind_ok (x : Run α) (f : α → Run β) (m : Machine) (r r' : Realm) (b : β)
    (ended : (x >>= f) m r = .ok b r') :
    ∃ a between, x m r = .ok a between ∧ f a m between = .ok b r' := by
  rw [bind_at] at ended
  cases first : x m r with
  | ok a between =>
    rw [first] at ended
    exact ⟨a, between, rfl, ended⟩
  | error e between =>
    rw [first] at ended
    cases ended

-- The second runs have to agree only on what the first can give.
theorem bind_agree (x y : Run α) (f g : α → Run β) (m : Machine) (first : x m = y m)
    (second : ∀ a r r', x m r = .ok a r' → f a m = g a m) : (x >>= f) m = (y >>= g) m := by
  funext r
  rw [bind_at, bind_at, ← first]
  cases found : x m r with
  | ok a r' => exact congrFun (second a r r' found) r'
  | error e r' => rfl

theorem bind_same (x y : Run α) (f : α → Run β) (m : Machine) (first : x m = y m) :
    (x >>= f) m = (y >>= f) m := by
  exact bind_agree x y f f m first fun _ _ _ _ => rfl

theorem bind_second (x : Run α) (f g : α → Run β) (m : Machine) (second : ∀ a, f a m = g a m) :
    (x >>= f) m = (x >>= g) m := by
  exact bind_agree x x f g m rfl fun a _ _ _ => second a

theorem discard_same (x y : Run α) (m : Machine) (same : x m = y m) :
    (discard x : Run PUnit) m = (discard y : Run PUnit) m := by
  funext r
  change (Functor.mapConst PUnit.unit x : Run PUnit) m r = (Functor.mapConst PUnit.unit y : Run PUnit) m r
  change EStateM.map (Function.const α PUnit.unit) (x m) r = EStateM.map (Function.const α PUnit.unit) (y m) r
  rw [same]

theorem discard_ok (x : Run α) (m : Machine) (r s : Realm) (a : α) (ended : x m r = .ok a s) :
    (discard x : Run PUnit) m r = .ok () s := by
  change EStateM.map (Function.const α PUnit.unit) (x m) r = _
  rw [EStateM.map, ended]

theorem bind_pure_at (a : α) (f : α → Run β) (m : Machine) : (pure a >>= f) m = f a m := by
  rfl

theorem step_at (m : Machine) (r : Realm) : step m r = match r.config.stepsLimit with
    | some limit =>
      if limit < r.steps + 1 then .error .stepsExceeded { r with steps := r.steps + 1 }
      else .ok () { r with steps := r.steps + 1 }
    | none => .ok () { r with steps := r.steps + 1 } := by
  rw [step, bind_at]
  change (MonadState.get >>= fun (r : Realm) => _ : Run Unit) m { r with steps := r.steps + 1 } = _
  rw [bind_at]
  change (match r.config.stepsLimit with
    | some limit => if limit < r.steps + 1 then throw .stepsExceeded else pure ()
    | none => pure () : Run Unit) m { r with steps := r.steps + 1 } = _
  cases r.config.stepsLimit with
  | none => rfl
  | some limit =>
    dsimp only
    split <;> rfl

end Ecma.Run
