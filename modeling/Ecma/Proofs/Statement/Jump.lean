import Ecma.Proofs.Run.Result
import Ecma.Proofs.Program.Meaning
import Ecma.Proofs.Syntax.Part

set_option autoImplicit false

/-!
Two runs that do the same and give related results. They change a realm in the same way and are
interrupted together; only what they give may be written differently.
-/

namespace Ecma

open Run

inductive Alike {α β : Type} (related : α → β → Prop) :
    EStateM.Result Interrupt Realm α → EStateM.Result Interrupt Realm β → Prop
  | ok (a : α) (b : β) (r : Realm) (holds : related a b) : Alike related (.ok a r) (.ok b r)
  | error (e : Interrupt) (r : Realm) : Alike related (.error e r) (.error e r)

def Agrees (m : Machine) {α β : Type} (related : α → β → Prop) (x : Run α) (y : Run β) : Prop :=
  ∀ r, Alike related (x m r) (y m r)

section

variable {m : Machine} {α β γ δ σ : Type} (related : α → β → Prop)

theorem agrees_pure (a : α) (b : β) (holds : related a b) : Agrees m related (pure a) (pure b) := by
  exact fun r => .ok a b r holds

theorem agrees_weaker (strong : α → β → Prop) (x : Run α) (y : Run β) (agrees : Agrees m strong x y)
    (weaker : ∀ a b, strong a b → related a b) : Agrees m related x y := by
  intro r
  have alike := agrees r
  generalize x m r = left at alike
  generalize y m r = right at alike
  cases alike with
  | ok a b s holds => exact .ok a b s (weaker a b holds)
  | error e s => exact .error e s

theorem agrees_bind (next : γ → δ → Prop) (x : Run α) (y : Run β) (f : α → Run γ) (g : β → Run δ)
    (first : Agrees m related x y) (second : ∀ a b, related a b → Agrees m next (f a) (g b)) :
    Agrees m next (x >>= f) (y >>= g) := by
  intro r
  rw [bind_at, bind_at]
  have alike := first r
  generalize x m r = left at alike
  generalize y m r = right at alike
  cases alike with
  | ok a b s holds => exact second a b holds s
  | error e s => exact .error e s

-- What comes first is the same on both sides.
theorem agrees_after (x y : Run σ) (f : σ → Run α) (g : σ → Run β) (same : x m = y m)
    (second : ∀ a, Agrees m related (f a) (g a)) : Agrees m related (x >>= f) (y >>= g) := by
  intro r
  rw [bind_at, bind_at, same]
  cases y m r with
  | ok a s => exact second a s
  | error e s => exact .error e s

theorem agrees_next (x : Run σ) (f : σ → Run α) (g : σ → Run β) (second : ∀ a, Agrees m related (f a) (g a)) :
    Agrees m related (x >>= f) (x >>= g) := by
  exact agrees_after related x x f g rfl second

theorem agrees_ite (c : Prop) [Decidable c] (x x' : Run α) (y y' : Run β) (yes : Agrees m related x y)
    (no : Agrees m related x' y') : Agrees m related (if c then x else x') (if c then y else y') := by
  split
  · exact yes
  · exact no

theorem agrees_throw (e : Interrupt) : Agrees m related (throw e) (throw e) := by
  exact fun r => .error e r

/-! Loops. -/

theorem agrees_rounds (round : σ → Run (σ ⊕ α)) (round' : σ → Run (σ ⊕ β)) (rounds : Nat) (state : σ)
    (each : ∀ state, Agrees m (Sum.LiftRel Eq related) (round state) (round' state)) :
    Agrees m related (loopFrom round rounds state) (loopFrom round' rounds state) := by
  induction rounds generalizing state with
  | zero => exact agrees_throw related .exhausted
  | succ rounds hyp =>
    rw [loopFrom, loopFrom]
    refine agrees_bind _ _ _ _ _ _ (each state) fun a b holds => ?_
    cases holds with
    | inl same =>
      cases same
      exact hyp _
    | inr holds => exact agrees_pure related _ _ holds

theorem agrees_loop (round : σ → Run (σ ⊕ α)) (round' : σ → Run (σ ⊕ β)) (state : σ)
    (each : ∀ state, Agrees m (Sum.LiftRel Eq related) (round state) (round' state)) :
    Agrees m related (loop state round) (loop state round') := by
  exact agrees_next related _ _ _ fun machine => agrees_rounds related round round' machine.rounds state each

/-! Contexts. -/

theorem agrees_always (after : Realm → Realm) (x : Run α) (y : Run β) (agrees : Agrees m related x y) :
    Agrees m related (always after x) (always after y) := by
  intro r
  rw [always, always]
  have alike := agrees r
  generalize x m r = left at alike
  generalize y m r = right at alike
  cases alike with
  | ok a b s holds => exact .ok a b _ holds
  | error e s => exact .error e _

theorem agrees_within (env : EnvironmentId) (x : Run α) (y : Run β) (agrees : Agrees m related x y) :
    Agrees m related (inEnvironment env x) (inEnvironment env y) := by
  refine agrees_next _ _ _ _ fun c => agrees_next _ _ _ _ fun _ => ?_
  exact agrees_always related _ x y agrees

-- Where one result is told by the other, the first run is the second with its result changed.
theorem agrees_map (f : β → α) (x : Run α) (y : Run β) (agrees : Agrees m related x y)
    (told : ∀ a b, related a b → a = f b) (r : Realm) : x m r = (f <$> y) m r := by
  rw [map_at]
  have alike := agrees r
  generalize x m r = left at alike
  generalize y m r = right at alike
  cases alike with
  | ok a b s holds => rw [told a b holds]
  | error e s => rfl

theorem agrees_ok (x : Run α) (y : Run β) (agrees : Agrees m related x y) (r s : Realm) (a : α)
    (ended : x m r = .ok a s) : ∃ b, related a b := by
  have alike := agrees r
  rw [ended] at alike
  generalize y m r = right at alike
  cases alike with
  | ok a b s holds => exact ⟨b, holds⟩

end

end Ecma

/-!
Jumps by name and by number. A label is known by how many labels are around its statement, so inside it
no other label has its number. How a compiled statement ends is how the statement ends as it is written,
except that a loop or a `switch` statement takes a `break` to a label right before it by itself.
-/

namespace Ecma

open Ecma.Program Ecma.Syntax Run

/-! Numbers of labels. -/

theorem label_below (name : String) (labels : List String) (n : Label)
    (found : Surroundings.labelFrom name labels = some n) : n < labels.length := by
  induction labels with
  | nil => cases found
  | cons label rest hyp =>
    rw [Surroundings.labelFrom] at found
    rw [List.length_cons]
    split at found
    · cases found
      exact Nat.lt_succ_self _
    · exact Nat.lt_succ_of_lt (hyp found)

theorem label_injective (name other : String) (labels : List String) (n : Label)
    (found : Surroundings.labelFrom name labels = some n) (same : Surroundings.labelFrom other labels = some n) :
    name = other := by
  induction labels with
  | nil => cases found
  | cons label rest hyp =>
    rw [Surroundings.labelFrom] at found same
    by_cases first : label = name <;> by_cases second : label = other
    · exact first.symm.trans second
    · rw [if_pos first] at found
      rw [if_neg second] at same
      cases found
      exact absurd (label_below other rest _ same) (Nat.lt_irrefl _)
    · rw [if_neg first] at found
      rw [if_pos second] at same
      cases same
      exact absurd (label_below name rest _ found) (Nat.lt_irrefl _)
    · rw [if_neg first] at found
      rw [if_neg second] at same
      exact hyp found same

theorem label_known (name : String) (labels : List String) (member : name ∈ labels) :
    ∃ n, Surroundings.labelFrom name labels = some n := by
  induction labels with
  | nil => exact absurd member List.not_mem_nil
  | cons label rest hyp =>
    rw [Surroundings.labelFrom]
    by_cases first : label = name
    · exact ⟨rest.length, if_pos first⟩
    · rw [if_neg first]
      exact hyp ((List.mem_cons.mp member).resolve_left (Ne.symm first))

/-- The labels around a place, the nearest first. -/
def Syntax.Goals.names (g : Goals) : List String :=
  g.labels.map Prod.fst

section

variable (g : Goals)

theorem lookup_number (name : String) (loop : Bool) (found : g.labels.lookup name = some loop) :
    ∃ n, Surroundings.labelFrom name g.names = some n := by
  refine label_known name g.names ?_
  obtain ⟨before, after, is, _⟩ := List.lookup_eq_some_iff.mp found
  rw [Goals.names, is]
  simp

theorem break_number (name : String) (breaks : g.breaks (some name)) :
    ∃ n, Surroundings.labelFrom name g.names = some n := by
  obtain ⟨loop, found⟩ := Option.isSome_iff_exists.mp breaks
  exact lookup_number g name loop found

-- The labels right before a statement, which say whether it is a loop, and their numbers.
structure Owns (own : List String) (ids : List Label) (loop : Bool) : Prop where
  labels : ∀ name ∈ own, g.labels.lookup name = some loop
  numbers : own.map (fun name => Surroundings.labelFrom name g.names) = ids.map some

theorem owns_none (loop : Bool) : Owns g [] [] loop := by
  exact ⟨fun name member => absurd member List.not_mem_nil, rfl⟩

/-- The numbers of the labels right before a statement. -/
def numbersOf (own : List String) : List Label :=
  own.filterMap fun name => Surroundings.labelFrom name g.names

theorem owns_numbers (own : List String) (loop : Bool) (owned : ∀ name ∈ own, g.labels.lookup name = some loop) :
    Owns g own (numbersOf g own) loop := by
  refine ⟨owned, ?_⟩
  induction own with
  | nil => rfl
  | cons name rest hyp =>
    obtain ⟨n, number⟩ := lookup_number g name loop (owned name List.mem_cons_self)
    have others := hyp fun other member => owned other (List.mem_cons_of_mem _ member)
    rw [List.map_cons, numbersOf, List.filterMap_cons, number, List.map_cons, others]
    rfl

theorem owns_number (own : List String) (ids : List Label) (loop : Bool) (owns : Owns g own ids loop)
    (name : String) (n : Label) (found : Surroundings.labelFrom name g.names = some n) :
    n ∈ ids ↔ name ∈ own := by
  have numbers : n ∈ ids ↔ some n ∈ own.map fun name => Surroundings.labelFrom name g.names := by
    rw [owns.numbers]
    simp
  rw [numbers, List.mem_map]
  constructor
  · rintro ⟨other, member, same⟩
    rw [label_injective name other g.names n found same]
    exact member
  · exact fun member => ⟨name, member, found⟩

theorem owns_under (own : List String) (ids : List Label) (loop : Bool) (owns : Owns g own ids loop)
    (label : String) (new : g.labels.lookup label = none) :
    Owns (g.under label loop) (own ++ [label]) (ids ++ [g.names.length]) loop := by
  have distinct (name : String) (member : name ∈ own) : label ≠ name := by
    rintro rfl
    cases new.symm.trans (owns.labels label member)
  refine ⟨fun name member => ?_, ?_⟩
  · rw [Goals.under, List.lookup_cons]
    rcases List.mem_append.mp member with known | last
    · rw [beq_false_of_ne (Ne.symm (distinct name known))]
      exact owns.labels name known
    · rw [List.mem_singleton.mp last, beq_self_eq_true]
  · have outer : own.map (fun name => Surroundings.labelFrom name (g.under label loop).names) = ids.map some := by
      rw [← owns.numbers]
      refine List.map_congr_left fun name member => ?_
      change (if label = name then some g.names.length else Surroundings.labelFrom name g.names) = _
      rw [if_neg (distinct name member)]
    rw [List.map_append, List.map_append, outer]
    change _ ++ [if label = label then _ else _] = _
    rw [if_pos rfl]
    rfl

end

/-! Endings. -/

/-- The jump with the numbers of labels in place of their names. -/
def NamedJump.numbered (labels : List String) : NamedJump → Jump
  | .returning => .returning
  | .breaking label => .breaking (label.bind fun name => Surroundings.labelFrom name labels)
  | .continuing label => .continuing (label.bind fun name => Surroundings.labelFrom name labels)

def Ending.numbered (labels : List String) (w : Ending) : Completion :=
  ⟨w.value, w.jump.map (NamedJump.numbered labels)⟩

/-- A jump that has somewhere to go, outside a statement behind some labels. -/
def NamedJump.Allowed (g : Goals) (own : List String) : NamedJump → Prop
  | .returning => g.kind = .function
  | .breaking label => g.breaks label
  | .continuing label => g.continues label ∧ ∀ name ∈ label, name ∉ own

-- A compiled statement ends as the statement ends as it is written, up to the labels right before it.
structure Delivers (g : Goals) (own : List String) (c : Completion) (w : Ending) : Prop where
  allowed : ∀ jump, w.jump = some jump → jump.Allowed g own
  same : c = w.numbered g.names ∨ ∃ name ∈ own, w.jump = some (.breaking (some name)) ∧ c = ⟨w.value, none⟩

section

variable (g : Goals) (own : List String) (ids : List Label)

theorem delivers_value (value : Option Value) : Delivers g own { value := value } { value := value } := by
  refine ⟨fun jump found => ?_, Or.inl rfl⟩
  cases found

theorem delivers_jump (value : Option Value) (jump : NamedJump) (allowed : jump.Allowed g own) :
    Delivers g own ⟨value, some (jump.numbered g.names)⟩ ⟨value, some jump⟩ := by
  refine ⟨fun other found => ?_, Or.inl rfl⟩
  cases found
  exact allowed

theorem delivers_exact (c : Completion) (w : Ending) (delivers : Delivers g [] c w) :
    c = w.numbered g.names := by
  rcases delivers.same with same | ⟨name, member, _⟩
  · exact same
  · exact absurd member List.not_mem_nil

theorem delivers_or (c : Completion) (w : Ending) (value : Option Value) (delivers : Delivers g [] c w) :
    Delivers g [] (c.orValue value) (w.orValue value) := by
  rw [delivers_exact g c w delivers]
  exact ⟨delivers.allowed, Or.inl rfl⟩

-- A statement that is no loop is no target of a `continue`.
theorem delivers_plain (c : Completion) (w : Ending) (owns : Owns g own ids false)
    (delivers : Delivers g [] c w) : Delivers g own c w := by
  refine ⟨fun jump found => ?_, Or.inl (delivers_exact g c w delivers)⟩
  have allowed := delivers.allowed jump found
  cases jump with
  | returning => exact allowed
  | breaking label => exact allowed
  | continuing label =>
    refine ⟨allowed.1, fun name is member => ?_⟩
    cases is
    cases (owns.labels name member).symm.trans allowed.1

theorem or_value_again (last : Option Value) (c : Completion) : c.orValue (c.value.or last) = c.orValue last := by
  obtain ⟨value, jump⟩ := c
  cases value <;> rfl

theorem end_round_pass (last : Option Value) (c : Completion) (pass : c.afterRound ids = .pass) :
    endRound ids last c = .inr (c.orValue last) := by
  rw [endRound, pass]
  exact congrArg Sum.inr (or_value_again last c)

theorem end_round_leave (last : Option Value) (c : Completion) (leave : c.afterRound ids = .leave) :
    endRound ids last c = .inr { value := c.value.or last } := by
  rw [endRound, leave]

theorem end_round_again (last : Option Value) (c : Completion) (again : c.afterRound ids = .again) :
    endRound ids last c = .inl (c.value.or last) := by
  rw [endRound, again]

theorem own_number (owned : Bool) (name : String) (n : Label) (owns : Owns g own ids owned)
    (number : Surroundings.labelFrom name g.names = some n) :
    isOwn ids ((some name).bind fun name => Surroundings.labelFrom name g.names) = decide (name ∈ own) := by
  rw [Option.bind_some, number, isOwn, List.contains_eq_mem]
  exact decide_eq_decide.mpr (owns_number g own ids owned owns name n number)

-- What a loop does after a round of its body.
theorem round_delivers (last : Option Value) (c : Completion) (w : Ending) (owns : Owns g own ids true)
    (delivers : Delivers g.inLoop [] c w) :
    Sum.LiftRel Eq (Delivers g own) (endRound ids last c) (w.afterRound own last) := by
  have exact' : c = w.numbered g.names := delivers_exact g.inLoop c w delivers
  rw [exact']
  have allowed := delivers.allowed
  obtain ⟨value, jump⟩ := w
  cases jump with
  | none => exact .inl rfl
  | some jump =>
  have allowed := allowed jump rfl
  cases jump with
  | returning =>
    rw [end_round_pass ids last _ rfl]
    exact .inr (delivers_jump g own _ .returning allowed)
  | breaking label =>
    cases label with
    | none => exact .inr (delivers_value g own _)
    | some name =>
      obtain ⟨n, number⟩ := break_number g name allowed
      have taken : (Ending.numbered g.names ⟨value, some (.breaking (some name))⟩).afterRound ids =
          if name ∈ own then .leave else .pass := by
        change (if isOwn ids _ = true then _ else _) = _
        rw [own_number g own ids true name n owns number]
        simp only [decide_eq_true_eq]
      by_cases member : name ∈ own
      · rw [if_pos member] at taken
        rw [end_round_leave ids last _ taken]
        refine .inr ⟨fun jump found => ?_, Or.inr ⟨name, member, rfl, rfl⟩⟩
        cases found
        exact allowed
      · rw [if_neg member] at taken
        rw [end_round_pass ids last _ taken]
        exact .inr (delivers_jump g own _ (.breaking (some name)) allowed)
  | continuing label =>
    cases label with
    | none => exact .inl rfl
    | some name =>
      obtain ⟨n, number⟩ := lookup_number g name true allowed.1
      have taken : (Ending.numbered g.names ⟨value, some (.continuing (some name))⟩).afterRound ids =
          if name ∈ own then .again else .pass := by
        change (if isOwn ids _ = true then _ else _) = _
        rw [own_number g own ids true name n owns number]
        simp only [decide_eq_true_eq]
      rw [Ending.afterRound]
      dsimp only
      by_cases member : name ∈ own
      · rw [if_pos member] at taken
        rw [end_round_again ids last _ taken, if_pos member]
        exact .inl rfl
      · rw [if_neg member] at taken
        rw [end_round_pass ids last _ taken, if_neg member]
        refine .inr (delivers_jump g own _ (.continuing (some name)) ⟨allowed.1, fun other is => ?_⟩)
        cases is
        exact member

-- A `switch` statement takes every `break` that has no label, and those to the labels right before it.
theorem switch_delivers (last : Option Value) (c : Completion) (w : Ending) (owns : Owns g own ids false)
    (delivers : Delivers g.inSwitch [] c w) :
    (c.leavesSwitch ids = true ∧ w.jump.isSome = true ∧ Delivers g own { value := c.value.or last }
      (if w.jump = some (.breaking none) then (w.orValue last).arrived else w.orValue last)) ∨
    (c.leavesSwitch ids = false ∧ w.jump ≠ some (.breaking none) ∧
      (w.jump.isSome = true → Delivers g own (c.orValue last) (w.orValue last))) := by
  have exact' : c = w.numbered g.names := delivers_exact g.inSwitch c w delivers
  rw [exact']
  have allowed := delivers.allowed
  obtain ⟨value, jump⟩ := w
  cases jump with
  | none => exact Or.inr ⟨rfl, by simp, by simp⟩
  | some jump =>
  have allowed := allowed jump rfl
  cases jump with
  | returning => exact Or.inr ⟨rfl, by simp, fun _ => delivers_jump g own _ .returning allowed⟩
  | breaking label =>
    cases label with
    | none => exact Or.inl ⟨rfl, rfl, delivers_value g own _⟩
    | some name =>
      obtain ⟨n, number⟩ := break_number g name allowed
      have taken : (Ending.numbered g.names ⟨value, some (.breaking (some name))⟩).leavesSwitch ids =
          decide (name ∈ own) := own_number g own ids false name n owns number
      by_cases member : name ∈ own
      · refine Or.inl ⟨by rw [taken, decide_eq_true member], rfl, ?_⟩
        rw [if_neg (by simp)]
        refine ⟨fun jump found => ?_, Or.inr ⟨name, member, rfl, rfl⟩⟩
        cases found
        exact allowed
      · refine Or.inr ⟨by rw [taken, decide_eq_false member], by simp, fun _ => ?_⟩
        exact delivers_jump g own _ (.breaking (some name)) allowed
  | continuing label =>
    refine Or.inr ⟨rfl, by simp, fun _ => delivers_jump g own _ (.continuing label) ⟨allowed.1, ?_⟩⟩
    intro name is member
    cases is
    cases (owns.labels name member).symm.trans allowed.1

-- A jump to something outside a labelled statement.
theorem outside_label (loop : Bool) (label : String) (jump : NamedJump)
    (allowed : jump.Allowed (g.under label loop) (own ++ [label])) (other : jump ≠ .breaking (some label)) :
    jump.Allowed g own ∧ jump.numbered (g.under label loop).names = jump.numbered g.names := by
  have lookup (name : String) (distinct : name ≠ label) :
      (g.under label loop).labels.lookup name = g.labels.lookup name := by
    rw [Goals.under, List.lookup_cons, beq_false_of_ne distinct]
  have number (name : String) (distinct : name ≠ label) :
      Surroundings.labelFrom name (g.under label loop).names = Surroundings.labelFrom name g.names := by
    change (if label = name then some g.names.length else Surroundings.labelFrom name g.names) = _
    rw [if_neg (Ne.symm distinct)]
  cases jump with
  | returning => exact ⟨allowed, rfl⟩
  | breaking target =>
    cases target with
    | none => exact ⟨allowed, rfl⟩
    | some name =>
      have distinct : name ≠ label := fun same => other (by rw [same])
      refine ⟨?_, congrArg Jump.breaking (number name distinct)⟩
      change (g.labels.lookup name).isSome = true
      rw [← lookup name distinct]
      exact allowed
  | continuing target =>
    cases target with
    | none => exact ⟨⟨allowed.1, fun name is => by cases is⟩, rfl⟩
    | some name =>
      have apart := allowed.2 name rfl
      have distinct : name ≠ label := fun same => apart (by simp [same])
      refine ⟨⟨?_, fun other is member => ?_⟩, congrArg Jump.continuing (number name distinct)⟩
      · change g.labels.lookup name = some true
        rw [← lookup name distinct]
        exact allowed.1
      · cases is
        exact apart (List.mem_append_left _ member)

-- No jump to something outside has the number of the label.
theorem outside_number (jump : NamedJump) : jump.numbered g.names ≠ .breaking (some g.names.length) := by
  cases jump with
  | breaking target =>
    intro same
    injection same with same
    obtain ⟨name, _, number⟩ := Option.bind_eq_some_iff.mp same
    exact Nat.lt_irrefl _ (label_below name g.names _ number)
  | _ => exact fun same => by cases same

theorem leave_other (label : Label) (c : Completion) (other : c.jump ≠ some (.breaking (some label))) :
    c.leaveLabel label = c := by
  rw [Completion.leaveLabel, if_neg other]

-- The labelled statement itself takes what its body has left.
theorem label_delivers (loop : Bool) (label : String) (c : Completion) (w : Ending)
    (delivers : Delivers (g.under label loop) (own ++ [label]) c w) :
    Delivers g own (c.leaveLabel g.names.length) (w.underLabel label) := by
  obtain ⟨allowed, same⟩ := delivers
  obtain ⟨value, jump⟩ := w
  cases jump with
  | none =>
    rcases same with rfl | ⟨_, _, contra, _⟩
    · exact delivers_value g own value
    · cases contra
  | some jump =>
  by_cases target : jump = .breaking (some label)
  · subst target
    have taken : (Ending.mk value (some (.breaking (some label)))).underLabel label = ⟨value, none⟩ := if_pos rfl
    rw [taken]
    rcases same with rfl | ⟨_, _, _, rfl⟩
    · have number : Surroundings.labelFrom label (g.under label loop).names = some g.names.length := if_pos rfl
      have left : ((Ending.mk value (some (.breaking (some label)))).numbered (g.under label loop).names).leaveLabel
          g.names.length = ⟨value, none⟩ := by
        refine if_pos ?_
        change some (Jump.breaking (Surroundings.labelFrom label (g.under label loop).names)) = _
        rw [number]
      rw [left]
      exact delivers_value g own value
    · exact delivers_value g own value
  · obtain ⟨outside, number⟩ := outside_label g own loop label jump (allowed jump rfl) target
    have stays : (Ending.mk value (some jump)).underLabel label = ⟨value, some jump⟩ := by
      refine if_neg fun same => ?_
      injection same with same
      exact target same
    rw [stays]
    rcases same with rfl | ⟨name, member, is, rfl⟩
    · rw [leave_other]
      · change Delivers g own ⟨value, some (jump.numbered (g.under label loop).names)⟩ _
        rw [number]
        exact delivers_jump g own value jump outside
      · change some (jump.numbered (g.under label loop).names) ≠ _
        rw [number]
        exact fun same => outside_number g jump (Option.some.inj same)
    · cases is
      refine ⟨fun other found => ?_, Or.inr ⟨name, ?_, rfl, leave_other _ _ (fun contra => by cases contra)⟩⟩
      · cases found
        exact outside
      · rcases List.mem_append.mp member with known | last
        · exact known
        · exact absurd (by rw [List.mem_singleton.mp last]) target

-- Nothing is around the statements of a unit.
theorem unit_delivers (h : Syntax.Header) (c : Completion) (w : Ending) (delivers : Delivers h.goals [] c w) :
    c.jump = none ∨ h.kind = .function ∧ c.jump = some .returning := by
  rw [delivers_exact _ c w delivers]
  have allowed := delivers.allowed
  obtain ⟨value, jump⟩ := w
  cases jump with
  | none => exact Or.inl rfl
  | some jump =>
  have allowed := allowed jump rfl
  cases jump with
  | returning => exact Or.inr ⟨allowed, rfl⟩
  | breaking label =>
    cases label with
    | none => exact absurd rfl allowed
    | some name => cases allowed
  | continuing label =>
    cases label with
    | none => exact absurd rfl allowed.1
    | some name => cases allowed.1

end

end Ecma
