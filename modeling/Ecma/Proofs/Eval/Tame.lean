import Ecma.Proofs.Builtin.Tame

set_option autoImplicit false

/-!
Code stays in the part in which its names are looked up.
-/

namespace Ecma

open Ecma.Program Ecma.Syntax Run

variable {w : Region} {moves : Bool}

/-! Places. -/

theorem get_slot_tame (index : Nat) : Tame w true (getSlot index) Value.In := by
  refine .running _ _ fun c w₁ _ inside => tame_heap _ _ fun h k w₂ upto alike => ?_
  obtain ⟨same, held⟩ := Heap.slot_alike h k alike c.frame index (upto.frame _ inside.frame)
  rw [same]
  exact ⟨rfl, tame_value _ held⟩

theorem read_place_tame (p : Place) (held : p.In w) : Tame w true p.read Value.In := by
  cases p with
  | slot index => exact get_slot_tame index
  | reference r => exact Reference.read_tame r held
  | property base key => exact get_of_tame _ _ held
  | nothing => exact tame_primitive _ rfl

theorem write_place_tame (p : Place) (v : Value) (strict : Bool) (place : p.In w) (held : v.In w) :
    Tame w moves (p.write v strict) Vague := by
  cases p with
  | slot index => exact .slot index v held
  | reference r => exact Reference.write_tame r v place held
  | property base key => exact put_of_tame _ _ _ _ place held
  | nothing => exact tame_error _ _ _

theorem delete_place_tame (p : Place) (strict : Bool) (held : p.In w) :
    Tame w moves (p.delete strict) Vague := by
  cases p with
  | slot index => exact tame_any _
  | reference r => exact Reference.delete_tame r held
  | property base key => exact .bind _ _ _ _ (to_object_tame _ held) fun _ _ _ inside => delete_own_tame _ _ _ inside
  | nothing => exact tame_any _

theorem type_of_place_tame (p : Place) (held : p.In w) : Tame w true p.typeOf Value.In := by
  unfold Place.typeOf
  split
  · exact tame_primitive _ rfl
  · refine .bind _ _ _ _ (read_place_tame _ held) fun v w₁ _ given => tame_heap _ _ fun h k w₂ upto alike => ?_
    exact ⟨by rw [Heap.type_of_alike h k alike v (given.more upto)], tame_primitive _ rfl⟩

theorem place_receiver_alike (p : Place) (h k : Heap) (alike : h.AlikeIn w k) (held : p.In w) :
    p.receiver k = p.receiver h ∧ (p.receiver h).In w := by
  cases p with
  | reference r => exact Reference.receiver_alike r h k alike held
  | _ => exact ⟨rfl, trivial⟩

theorem update_place_tame (op : UpdateOp) (before : Bool) (p : Place) (strict : Bool) (held : p.In w) :
    Tame w true (updatePlace op before p strict) Value.In := by
  refine .bind _ _ _ _ (read_place_tame p held) fun v w₁ upto₁ given => ?_
  refine tame_then _ _ _ _ (to_number_tame v given) fun x w₂ upto₂ => ?_
  have place := Place.In.more (upto₁.trans upto₂) held
  exact tame_then _ _ _ _ (write_place_tame p _ strict place trivial) fun _ _ _ => tame_primitive _ rfl

/-! Functions and calls. -/

theorem named_function_tame (routine : Routine) (own : Option OwnName) (plain : routine.Plain) :
    Tame w true (newNamedFunction routine own) Value.In := by
  refine .running _ _ fun c w' _ within => ?_
  cases own with
  | none => exact tame_made_object _ (.function routine _ plain within.lexical)
  | some own =>
    dsimp -zeta only
    extract_lets outer rest
    have bound (env : EnvironmentId) (w'' : Region) (around : w''.environment env) :
        Tame w'' true (rest env) Value.In := by
      refine .bind _ _ _ _ (.function routine env plain around) fun f w₁ upto₁ inside => ?_
      cases own.slot with
      | some index =>
        exact tame_then _ _ _ _ (Tame.slot index (.object f) inside) fun _ _ upto =>
          tame_value (.object f) (Region.object.more inside upto)
      | none =>
        exact tame_then _ _ _ _ (bind_constant_tame env own.name (.object f) (upto₁.environment env around) inside)
          fun _ _ upto => tame_value (.object f) (Region.object.more inside upto)
    split
    · exact .bind _ _ Region.environment _ (.pure _ _ fun _ upto => within.lexical.more upto) fun env w'' _ around =>
        bound env w'' around
    · exact .bind _ _ _ _ (new_scope_tame _ within.lexical) fun env w'' _ around => bound env w'' around

theorem call_at_tame (site : Site) (f this : Value) (args : List Value) (callee : f.In w)
    (receiver : this.In w) (all : Values.In w args) : Tame w true (callAt site f this args) Value.In := by
  refine tame_then _ _ _ _ (.position _) fun _ w₁ upto₁ => tame_heap _ _ fun h k w₂ upto₂ alike => ?_
  have more := upto₁.trans upto₂
  have callee := callee.more more
  dsimp only
  rw [Heap.is_callable_alike h k alike f callee]
  exact ⟨rfl, tame_ite _ _ _ _ (tame_stopped _ _ _ _)
    (call_tame _ _ _ callee (receiver.more more) (Values.In.more more all))⟩

theorem call_named_tame (site : Site) (name : String) (f this : Value) (args : List Value) (strict : Bool)
    (callee : f.In w) (receiver : this.In w) (all : Values.In w args) :
    Tame w true (callNamed site name f this args strict) Value.In := by
  refine tame_ite _ _ _ _ ?_ (call_at_tame site f this args callee receiver all)
  refine tame_then _ _ _ _ (.position _) fun _ w₁ upto₁ => ?_
  exact .running _ _ fun c w₂ upto₂ inside =>
    evaluate_text_tame _ _ _ ((head_in args all).more (upto₁.trans upto₂)) inside

theorem construct_at_tame (site : Site) (f : Value) (args : List Value) (callee : f.In w)
    (all : Values.In w args) : Tame w true (constructAt site f args) Value.In := by
  refine tame_then _ _ _ _ (.position _) fun _ w₁ upto₁ => tame_heap _ _ fun h k w₂ upto₂ alike => ?_
  have more := upto₁.trans upto₂
  have callee := callee.more more
  dsimp only
  rw [Heap.is_callable_alike h k alike f callee]
  exact ⟨rfl, tame_ite _ _ _ _ (tame_stopped _ _ _ _) (construct_tame _ _ callee (Values.In.more more all))⟩

theorem property_definition_in (kind : PropertyKind) (v : Value) (held : v.In w) :
    (propertyDefinition kind v).In w := by
  have function (f : ObjectId) (same : v.object? = some f) : (Value.object f).In w := by
    cases v with
    | object id =>
      cases same
      exact held
    | _ => cases same
  cases kind with
  | init => exact Definition.all_of_descriptor _ ((Descriptor.all_data _ _ _ _).mpr held)
  | getter => exact ⟨nofun, fun f same => function f (Option.some.inj same), nofun⟩
  | setter => exact ⟨nofun, nofun, fun f same => function f (Option.some.inj same)⟩

/-! Expressions. -/

mutual

theorem evaluate_tame (strict : Bool) (e : Expr) (w : Region) (plain : e.Plain) :
    Tame w true (evaluate strict e) Value.In := by
  cases e with
  | constant v =>
    rw [Expr.Plain] at plain
    rw [evaluate]
    exact tame_primitive v plain
  | this =>
    rw [evaluate]
    exact .running _ _ fun c w' _ inside => tame_value _ inside.this
  | «variable» v =>
    rw [evaluate]
    exact .bind _ _ _ _ (.found _ _) fun p _ _ held => read_place_tame p held
  | array elements =>
    rw [Expr.Plain] at plain
    rw [evaluate]
    refine .bind _ _ _ _ (evaluate_elements_tame strict elements w plain) fun items w' _ held => ?_
    exact tame_made_object _ (new_sparse_array_tame items held)
  | object properties =>
    rw [Expr.Plain] at plain
    rw [evaluate]
    refine .bind _ _ _ _ tame_plain fun id w' _ inside => ?_
    exact tame_then _ _ _ _ (evaluate_properties_tame strict id properties w' inside plain) fun _ _ upto =>
      tame_value (.object id) (Region.object.more inside upto)
  | function routine own =>
    rw [Expr.Plain] at plain
    rw [evaluate]
    exact named_function_tame routine own plain
  | member object key =>
    rw [Expr.Plain] at plain
    rw [evaluate]
    refine .bind _ _ _ _ (evaluate_tame strict object w plain.1) fun base w₁ _ held => ?_
    refine tame_then _ _ _ _ (evaluate_key_tame strict key w₁ plain.2) fun key w₂ upto => ?_
    exact get_of_tame base key (held.more upto)
  | callMember site object key args =>
    rw [Expr.Plain] at plain
    rw [evaluate]
    refine .bind _ _ _ _ (evaluate_tame strict object w plain.1) fun base w₁ _ held => ?_
    refine tame_then _ _ _ _ (evaluate_key_tame strict key w₁ plain.2.1) fun key w₂ upto₂ => ?_
    refine .bind _ _ _ _ (get_of_tame base key (held.more upto₂)) fun f w₃ upto₃ callee => ?_
    refine .bind _ _ _ _ (evaluate_all_tame strict args w₃ plain.2.2) fun args w₄ upto₄ all => ?_
    exact call_at_tame site f base args (callee.more upto₄) (held.more ((upto₂.trans upto₃).trans upto₄)) all
  | callVariable site v args =>
    rw [Expr.Plain] at plain
    rw [evaluate]
    refine .bind _ _ _ _ (.found _ _) fun p w₁ _ place => ?_
    refine .bind _ _ _ _ (read_place_tame p place) fun f w₂ upto₂ callee => tame_heap _ _ fun h k w₃ upto₃ alike => ?_
    obtain ⟨same, receiver⟩ := place_receiver_alike p h k alike (Place.In.more (upto₂.trans upto₃) place)
    dsimp only
    rw [same]
    refine ⟨rfl, .bind _ _ _ _ (evaluate_all_tame strict args w₃ plain) fun args w₄ upto₄ all => ?_⟩
    exact call_named_tame site v.name f _ args strict ((callee.more upto₃).more upto₄) (receiver.more upto₄) all
  | call site callee args =>
    rw [Expr.Plain] at plain
    rw [evaluate]
    refine .bind _ _ _ _ (evaluate_tame strict callee w plain.1) fun f w₁ _ held => ?_
    refine .bind _ _ _ _ (evaluate_all_tame strict args w₁ plain.2) fun args w₂ upto all => ?_
    exact call_at_tame site f _ args (held.more upto) trivial all
  | construct site callee args =>
    rw [Expr.Plain] at plain
    rw [evaluate]
    refine .bind _ _ _ _ (evaluate_tame strict callee w plain.1) fun f w₁ _ held => ?_
    refine .bind _ _ _ _ (evaluate_all_tame strict args w₁ plain.2) fun args w₂ upto all => ?_
    exact construct_at_tame site f args (held.more upto) all
  | typeOfVariable v =>
    rw [evaluate]
    exact .bind _ _ _ _ (.found _ _) fun p _ _ held => type_of_place_tame p held
  | typeOf e =>
    rw [Expr.Plain] at plain
    rw [evaluate]
    refine .bind _ _ _ _ (evaluate_tame strict e w plain) fun v w₁ _ held => tame_heap _ _ fun h k w₂ upto alike => ?_
    exact ⟨by rw [Heap.type_of_alike h k alike v (held.more upto)], tame_primitive _ rfl⟩
  | delete target =>
    rw [Expr.Plain] at plain
    rw [evaluate]
    refine .bind _ _ _ _ (evaluate_target_tame strict target w plain) fun p w' _ held => ?_
    exact tame_made _ _ _ (delete_place_tame p strict held) fun _ => rfl
  | void e =>
    rw [Expr.Plain] at plain
    rw [evaluate]
    exact tame_then _ _ _ _ (tame_discard _ _ (evaluate_tame strict e w plain)) fun _ _ _ =>
      tame_primitive _ rfl
  | not e =>
    rw [Expr.Plain] at plain
    rw [evaluate]
    exact tame_made _ _ _ (evaluate_tame strict e w plain) fun _ => rfl
  | sign op primitive e =>
    rw [Expr.Plain] at plain
    rw [evaluate]
    refine .bind _ _ _ _ (evaluate_tame strict e w plain) fun v w' _ held => ?_
    refine tame_ite _ _ _ _ (tame_primitive _ rfl) ?_
    exact tame_made _ _ _ (to_number_tame v held) fun _ => rfl
  | update op before target =>
    rw [Expr.Plain] at plain
    rw [evaluate]
    exact .bind _ _ _ _ (evaluate_target_tame strict target w plain) fun p _ _ held =>
      update_place_tame op before p strict held
  | binary operation left right =>
    rw [Expr.Plain] at plain
    rw [evaluate]
    refine .bind _ _ _ _ (evaluate_tame strict left w plain.1) fun a w₁ _ first => ?_
    refine .bind _ _ _ _ (evaluate_tame strict right w₁ plain.2) fun b w₂ upto second => ?_
    exact perform_tame operation a b (first.more upto) second
  | logical op left right =>
    rw [Expr.Plain] at plain
    rw [evaluate]
    refine .bind _ _ _ _ (evaluate_tame strict left w plain.1) fun v w₁ _ held => ?_
    exact tame_ite _ _ _ _ (evaluate_tame strict right w₁ plain.2) (tame_value v held)
  | conditional test yes no =>
    rw [Expr.Plain] at plain
    rw [evaluate]
    refine tame_then _ _ _ _ (evaluate_tame strict test w plain.1) fun v w' _ => ?_
    exact tame_ite _ _ _ _ (evaluate_tame strict yes w' plain.2.1) (evaluate_tame strict no w' plain.2.2)
  | assign target value =>
    rw [Expr.Plain] at plain
    rw [evaluate]
    refine .bind _ _ _ _ (evaluate_target_tame strict target w plain.1) fun p w₁ _ place => ?_
    refine .bind _ _ _ _ (evaluate_tame strict value w₁ plain.2) fun v w₂ upto₂ held => ?_
    exact tame_then _ _ _ _ (write_place_tame p v strict (Place.In.more upto₂ place) held) fun _ _ upto₃ =>
      tame_value v (held.more upto₃)
  | compound op target value =>
    rw [Expr.Plain] at plain
    rw [evaluate]
    refine .bind _ _ _ _ (evaluate_target_tame strict target w plain.1) fun p w₁ _ place => ?_
    refine .bind _ _ _ _ (read_place_tame p place) fun old w₂ upto₂ first => ?_
    refine .bind _ _ _ _ (evaluate_tame strict value w₂ plain.2) fun operand w₃ upto₃ second => ?_
    refine .bind _ _ _ _ (operate_tame op old operand (first.more upto₃) second) fun v w₄ upto₄ held => ?_
    have place := Place.In.more ((upto₂.trans upto₃).trans upto₄) place
    exact tame_then _ _ _ _ (write_place_tame p v strict place held) fun _ _ upto₅ =>
      tame_value v (held.more upto₅)
  | sequence items =>
    rw [Expr.Plain] at plain
    rw [evaluate]
    exact evaluate_last_tame strict .undefined items w plain trivial

theorem evaluate_key_tame (strict : Bool) (key : Key) (w : Region) (plain : key.Plain) :
    Tame w true (evaluateKey strict key) Vague := by
  cases key with
  | known key =>
    rw [evaluateKey]
    exact tame_any key
  | computed e =>
    rw [Key.Plain] at plain
    rw [evaluateKey]
    exact .bind _ _ _ _ (evaluate_tame strict e w plain) fun v _ _ held => to_property_key_tame v held

theorem evaluate_target_tame (strict : Bool) (target : Target) (w : Region) (plain : target.Plain) :
    Tame w true (evaluateTarget strict target) Place.In := by
  cases target with
  | «variable» v =>
    rw [evaluateTarget]
    exact .found _ _
  | member object key =>
    rw [Target.Plain] at plain
    rw [evaluateTarget]
    refine .bind _ _ _ _ (evaluate_tame strict object w plain.1) fun base w₁ _ held => ?_
    refine tame_after _ _ _ _ (evaluate_key_tame strict key w₁ plain.2) fun w₂ _ upto₂ _ w₃ upto₃ => ?_
    exact held.more (upto₂.trans upto₃)
  | value e =>
    rw [Target.Plain] at plain
    rw [evaluateTarget]
    exact tame_then _ _ _ _ (tame_discard _ _ (evaluate_tame strict e w plain)) fun _ _ _ =>
      .pure _ _ fun _ _ => trivial

theorem evaluate_all_tame (strict : Bool) (es : List Expr) (w : Region) (plain : PlainExprs es) :
    Tame w true (evaluateAll strict es) (fun w => Values.In w) := by
  cases es with
  | nil =>
    rw [evaluateAll]
    exact .pure _ _ fun _ _ v member => absurd member List.not_mem_nil
  | cons e rest =>
    rw [PlainExprs] at plain
    rw [evaluateAll]
    refine .bind _ _ _ _ (evaluate_tame strict e w plain.1) fun v w₁ _ held => ?_
    refine tame_after _ _ _ _ (evaluate_all_tame strict rest w₁ plain.2) fun w₂ vs upto₂ others w₃ upto₃ => ?_
    exact List.forall_mem_cons.mpr ⟨held.more (upto₂.trans upto₃), Values.In.more upto₃ others⟩

theorem evaluate_last_tame (strict : Bool) (last : Value) (es : List Expr) (w : Region) (plain : PlainExprs es)
    (held : last.In w) : Tame w true (evaluateLast strict last es) Value.In := by
  cases es with
  | nil =>
    rw [evaluateLast]
    exact tame_value last held
  | cons e rest =>
    rw [PlainExprs] at plain
    rw [evaluateLast]
    exact .bind _ _ _ _ (evaluate_tame strict e w plain.1) fun v w' _ held =>
      evaluate_last_tame strict v rest w' plain.2 held

theorem evaluate_elements_tame (strict : Bool) (elements : List Program.Element) (w : Region)
    (plain : PlainElements elements) : Tame w true (evaluateElements strict elements) (fun w => Items.In w) := by
  cases elements with
  | nil =>
    rw [evaluateElements]
    exact .pure _ _ fun _ _ v member => absurd member List.not_mem_nil
  | cons element rest =>
    cases element with
    | hole =>
      rw [PlainElements] at plain
      rw [evaluateElements]
      refine tame_after _ _ _ _ (evaluate_elements_tame strict rest w plain) fun w' items _ others w'' upto => ?_
      intro v member
      rcases List.mem_cons.mp member with same | older
      · cases same
      · exact (others v older).more upto
    | item e =>
      rw [PlainElements] at plain
      rw [evaluateElements]
      refine .bind _ _ _ _ (evaluate_tame strict e w plain.1) fun v w₁ _ held => ?_
      refine tame_after _ _ _ _ (evaluate_elements_tame strict rest w₁ plain.2)
        fun w₂ items upto₂ others w₃ upto₃ => ?_
      intro u member
      rcases List.mem_cons.mp member with same | older
      · cases same
        exact held.more (upto₂.trans upto₃)
      · exact (others u older).more upto₃

theorem evaluate_properties_tame (strict : Bool) (id : ObjectId) (properties : List Program.Property) (w : Region)
    (inside : w.object id) (plain : PlainProperties properties) :
    Tame w true (evaluateProperties strict id properties) Vague := by
  cases properties with
  | nil =>
    rw [evaluateProperties]
    exact tame_any _
  | cons property rest =>
    cases property with
    | mk key kind value =>
      rw [PlainProperties] at plain
      rw [evaluateProperties]
      refine .bind _ _ _ _ (evaluate_tame strict value w plain.1) fun v w₁ upto₁ held => ?_
      have inside := upto₁.object id inside
      have defined : Tame w₁ true (defineOwn id key (propertyDefinition kind v) false) Vague :=
        define_own_tame _ _ _ _ (property_one_kind kind v) inside (property_definition_in kind v held)
      refine tame_then _ _ _ _ (tame_discard _ _ defined) fun _ w₂ upto₂ => ?_
      exact evaluate_properties_tame strict id rest w₂ (upto₂.object id inside) plain.2

end

/-! Completions. -/

theorem completion_in (v : Option Value) (jump : Option Jump) (held : OptionalValue.In w v) :
    Tame w moves (pure ⟨v, jump⟩ : Run Completion) Completion.In := by
  exact .pure _ _ fun _ upto => OptionalValue.In.more upto held

theorem some_in (v : Value) (held : v.In w) : OptionalValue.In w (some v) := by
  exact fun u same => Option.some.inj same ▸ held

theorem normal_tame : Tame w moves (pure .normal : Run Completion) Completion.In := by
  exact completion_in none none nofun

theorem leave_label_in (label : Label) (c : Completion) (held : c.In w) : (c.leaveLabel label).In w := by
  unfold Completion.leaveLabel
  split
  · exact held
  · exact held

-- The value is none, or it leads to what there is.
theorem result_in (c : Completion) (held : c.In w) : c.result.In w := by
  rw [Completion.result]
  cases found : c.value with
  | none => trivial
  | some v => exact held v found

theorem run_handler_tame (own : OwnName) (thrown : Value) (body : Run Completion) (held : thrown.In w)
    (runs : ∀ w', w.Upto w' → Tame w' true body Completion.In) :
    Tame w true (runHandler own thrown body) Completion.In := by
  refine .running _ _ fun c w₁ upto₁ inside => ?_
  extract_lets outer last rest
  have bound (env : EnvironmentId) (w₂ : Region) (upto₂ : w₁.Upto w₂) (around : w₂.environment env) :
      Tame w₂ true (rest env) Completion.In := by
    refine .within _ _ _ around ?_
    have here := upto₁.trans upto₂
    have held := held.more here
    cases own.slot with
    | some index => exact tame_then _ _ _ _ (.slot index thrown held) fun _ w₃ on => runs w₃ (here.trans on)
    | none =>
      refine tame_then _ _ _ _ (create_binding_tame _ _ _ around) fun _ w₃ upto₃ => ?_
      refine tame_then _ _ _ _ (set_binding_tame _ _ _ _ (upto₃.environment env around) (held.more upto₃))
        fun _ w₄ upto₄ => ?_
      exact runs w₄ ((here.trans upto₃).trans upto₄)
  split
  · exact .bind _ _ Region.environment _ (.pure _ _ fun _ more => more.environment _ inside.lexical) bound
  · exact .bind _ _ _ _ (new_scope_tame _ inside.lexical) bound

/-! Statements. -/

mutual

theorem execute_tame (strict : Bool) (s : Stmt) (w : Region) (plain : s.Plain) :
    Tame w true (execute strict s) Completion.In := by
  cases s with
  | block body =>
    rw [Stmt.Plain] at plain
    rw [execute]
    exact execute_all_tame strict none body w plain nofun
  | labelled label body =>
    rw [Stmt.Plain] at plain
    rw [execute]
    refine tame_after _ _ _ _ (execute_tame strict body w plain) fun w' c _ held w'' upto => ?_
    exact OptionalValue.In.more upto (leave_label_in label c held)
  | step position action =>
    rw [Stmt.Plain] at plain
    rw [execute_step]
    refine tame_then _ _ _ _ .step fun _ _ _ => ?_
    exact tame_then _ _ _ _ (.position _) fun _ w' _ => act_tame strict action w' plain

theorem execute_all_tame (strict : Bool) (last : Option Value) (body : List Stmt) (w : Region)
    (plain : PlainStmts body) (held : OptionalValue.In w last) :
    Tame w true (executeAll strict last body) Completion.In := by
  cases body with
  | nil =>
    rw [executeAll]
    exact completion_in last none held
  | cons s rest =>
    rw [PlainStmts] at plain
    rw [execute_all_cons]
    refine .bind _ _ _ _ (execute_tame strict s w plain.1) fun c w' upto given => ?_
    have either := or_in c.value last given (OptionalValue.In.more upto held)
    exact tame_ite _ _ _ _ (completion_in _ c.jump either) (execute_all_tame strict _ rest w' plain.2 either)

theorem act_tame (strict : Bool) (action : Action) (w : Region) (plain : action.Plain) :
    Tame w true (act strict action) Completion.In := by
  cases action with
  | nothing =>
    rw [act]
    exact normal_tame
  | expression e =>
    rw [Action.Plain] at plain
    rw [act]
    exact .bind _ _ _ _ (evaluate_tame strict e w plain) fun v _ _ held =>
      completion_in _ none (some_in v held)
  | «variables» assignments =>
    rw [Action.Plain] at plain
    rw [act]
    exact tame_then _ _ _ _ (assign_all_tame strict assignments w plain) fun _ _ _ => normal_tame
  | returning e =>
    rw [Action.Plain] at plain
    cases e with
    | none =>
      rw [act]
      exact completion_in _ _ (some_in _ trivial)
    | some e =>
      rw [PlainOptional] at plain
      rw [act]
      exact .bind _ _ _ _ (evaluate_tame strict e w plain) fun v _ _ held =>
        completion_in _ _ (some_in v held)
  | breaking label =>
    rw [act]
    exact completion_in _ _ nofun
  | continuing label =>
    rw [act]
    exact completion_in _ _ nofun
  | conditional test yes no =>
    rw [Action.Plain] at plain
    rw [act]
    refine tame_then _ _ _ _ (evaluate_tame strict test w plain.1) fun v w' _ => ?_
    exact tame_ite _ _ _ _ (execute_tame strict yes w' plain.2.1) (execute_optional_tame strict no w' plain.2.2)
  | throwing e =>
    rw [Action.Plain] at plain
    rw [act]
    exact .bind _ _ _ _ (evaluate_tame strict e w plain) fun v _ _ held => .throwing v _ held
  | whileLoop labels test body =>
    rw [Action.Plain] at plain
    rw [act]
    refine .whileRounds labels _ _ _ (fun w' _ => ?_) (fun w' _ => execute_tame strict body w' plain.2)
      fun _ _ => tame_any _
    exact tame_drop _ _ _ (evaluate_tame strict test w' plain.1)
  | doLoop labels body test =>
    rw [Action.Plain] at plain
    rw [act]
    refine .doRounds labels _ _ (fun w' _ => execute_tame strict body w' plain.1) fun w' _ => ?_
    exact tame_drop _ _ _ (evaluate_tame strict test w' plain.2)
  | forLoop labels init test update body =>
    rw [Action.Plain] at plain
    rw [act]
    refine tame_then _ _ _ _ (start_loop_tame strict init w plain.1) fun _ w₁ _ => ?_
    exact .whileRounds labels _ _ _ (fun w' _ => test_optional_tame strict test w' plain.2.1)
      (fun w' _ => execute_tame strict body w' plain.2.2.2)
      fun w' _ => evaluate_optional_tame strict update w' plain.2.2.1
  | forIn labels init target object body =>
    rw [Action.Plain] at plain
    rw [act]
    refine tame_then _ _ _ _ (assign_all_tame strict init w plain.1) fun _ w₁ _ => ?_
    refine .bind _ _ _ _ (evaluate_tame strict object w₁ plain.2.2.1) fun v w₂ _ held => ?_
    refine tame_ite _ _ _ _ normal_tame ?_
    refine .bind _ _ _ _ (to_object_tame v held) fun id w₃ _ inside => ?_
    refine .nameRounds labels id _ _ inside (fun name w₄ _ => ?_) fun w₄ _ => execute_tame strict body w₄ plain.2.2.2
    exact .bind _ _ _ _ (evaluate_target_tame strict target w₄ plain.2.1) fun p _ _ place =>
      write_place_tame p _ strict place trivial
  | switching labels subject selector otherwise clauses =>
    rw [Action.Plain] at plain
    rw [act]
    refine .bind _ _ _ _ (evaluate_tame strict subject w plain.1) fun v w₁ _ _ => ?_
    refine tame_then _ _ _ _ (select_tame strict v selector w₁ plain.2.1) fun selected w₂ _ => ?_
    split
    · exact normal_tame
    · exact execute_clauses_tame strict labels _ none clauses w₂ plain.2.2 nofun
  | trying block handler finalizer =>
    rw [Action.Plain] at plain
    rw [act]
    refine execute_finally_tame strict _ finalizer w plain.2.2 ?_
    exact execute_guarded_tame strict _ handler w plain.2.1 (execute_all_tame strict none block w plain.1 nofun)
  | withObject object body =>
    rw [Action.Plain] at plain
    rw [act]
    refine .bind _ _ _ _ (evaluate_tame strict object w plain.1) fun v w₁ _ held => ?_
    refine .bind _ _ _ _ (to_object_tame v held) fun id w₂ _ inside => ?_
    refine .running _ _ fun c w₃ upto around => ?_
    refine .bind _ _ _ _ (.environment _ ⟨fun link same => ?_, nofun, fun id' receiver same => ?_⟩ nofun)
      fun env w₄ _ around => .within _ _ _ around (execute_tame strict body w₄ plain.2)
    · cases same
      exact around.lexical
    · cases same
      exact upto.object id inside

theorem execute_optional_tame (strict : Bool) (s : Option Stmt) (w : Region) (plain : PlainAlternative s) :
    Tame w true (executeOptional strict s) Completion.In := by
  cases s with
  | none =>
    rw [executeOptional]
    exact normal_tame
  | some s =>
    rw [PlainAlternative] at plain
    rw [executeOptional]
    exact execute_tame strict s w plain

theorem assign_all_tame (strict : Bool) (assignments : List Assignment) (w : Region)
    (plain : PlainAssignments assignments) : Tame w true (assignAll strict assignments) Vague := by
  cases assignments with
  | nil =>
    rw [assignAll]
    exact tame_any _
  | cons assignment rest =>
    cases assignment with
    | mk v e =>
      rw [PlainAssignments] at plain
      rw [assignAll]
      refine .bind _ _ _ _ (.found _ _) fun p w₁ _ place => ?_
      refine .bind _ _ _ _ (evaluate_tame strict e w₁ plain.1) fun value w₂ upto₂ held => ?_
      refine tame_then _ _ _ _ (write_place_tame p value strict (Place.In.more upto₂ place) held) fun _ w₃ _ => ?_
      exact assign_all_tame strict rest w₃ plain.2

theorem start_loop_tame (strict : Bool) (init : LoopInit) (w : Region) (plain : init.Plain) :
    Tame w true (startLoop strict init) Vague := by
  cases init with
  | none =>
    rw [startLoop]
    exact tame_any _
  | «variables» assignments =>
    rw [LoopInit.Plain] at plain
    rw [startLoop]
    exact assign_all_tame strict assignments w plain
  | expression e =>
    rw [LoopInit.Plain] at plain
    rw [startLoop]
    exact tame_discard _ _ (evaluate_tame strict e w plain)

theorem test_optional_tame (strict : Bool) (e : Option Expr) (w : Region) (plain : PlainOptional e) :
    Tame w true (testOptional strict e) Vague := by
  cases e with
  | none =>
    rw [testOptional]
    exact tame_any _
  | some e =>
    rw [PlainOptional] at plain
    rw [testOptional]
    exact tame_drop _ _ _ (evaluate_tame strict e w plain)

theorem evaluate_optional_tame (strict : Bool) (e : Option Expr) (w : Region) (plain : PlainOptional e) :
    Tame w true (evaluateOptional strict e) Vague := by
  cases e with
  | none =>
    rw [evaluateOptional]
    exact tame_any _
  | some e =>
    rw [PlainOptional] at plain
    rw [evaluateOptional]
    exact tame_discard _ _ (evaluate_tame strict e w plain)

theorem select_tame (strict : Bool) (v : Value) (selector : Selector) (w : Region) (plain : selector.Plain) :
    Tame w true (select strict v selector) Vague := by
  cases selector with
  | direct table =>
    rw [select]
    exact tame_any _
  | tests tests =>
    rw [Selector.Plain] at plain
    rw [select]
    exact select_test_tame strict v tests w plain

theorem select_test_tame (strict : Bool) (v : Value) (tests : List Test) (w : Region) (plain : PlainTests tests) :
    Tame w true (selectTest strict v tests) Vague := by
  cases tests with
  | nil =>
    rw [selectTest]
    exact tame_any _
  | cons test rest =>
    cases test with
    | mk clause e =>
      rw [PlainTests] at plain
      rw [selectTest]
      refine tame_then _ _ _ _ (evaluate_tame strict e w plain.1) fun t w' _ => ?_
      exact tame_ite _ _ _ _ (tame_any _) (select_test_tame strict v rest w' plain.2)

theorem execute_clauses_tame (strict : Bool) (labels : List Label) (skipped : Nat) (last : Option Value)
    (clauses : List Program.Clause) (w : Region) (plain : PlainClauses clauses) (held : OptionalValue.In w last) :
    Tame w true (executeClauses strict labels skipped last clauses) Completion.In := by
  cases clauses with
  | nil =>
    rw [executeClauses]
    exact completion_in last none held
  | cons clause rest =>
    cases clause with
    | mk body =>
      rw [PlainClauses] at plain
      cases skipped with
      | succ skipped =>
        rw [executeClauses]
        exact execute_clauses_tame strict labels skipped last rest w plain.2 held
      | zero =>
        rw [executeClauses]
        refine .bind _ _ _ _ (execute_all_tame strict none body w plain.1 nofun) fun c w' upto given => ?_
        have either := or_in c.value last given (OptionalValue.In.more upto held)
        refine tame_ite _ _ _ _ (completion_in _ none either) (tame_ite _ _ _ _ ?_ ?_)
        · exact completion_in _ c.jump (or_in c.value _ given either)
        · exact execute_clauses_tame strict labels 0 _ rest w' plain.2 either

theorem execute_guarded_tame (strict : Bool) (block : Run Completion) (handler : Option Program.Handler) (w : Region)
    (plain : PlainHandler handler) (body : Tame w true block Completion.In) :
    Tame w true (executeGuarded strict block handler) Completion.In := by
  cases handler with
  | none =>
    rw [executeGuarded]
    exact body
  | some handler =>
    cases handler with
    | mk own stmts =>
      rw [PlainHandler] at plain
      rw [executeGuarded]
      refine .catching _ _ body fun v w' _ held => run_handler_tame own v _ held fun w'' _ => ?_
      exact execute_all_tame strict none stmts w'' plain nofun

theorem execute_finally_tame (strict : Bool) (block : Run Completion) (finalizer : Option (List Stmt)) (w : Region)
    (plain : PlainFinalizer finalizer) (body : Tame w true block Completion.In) :
    Tame w true (executeFinally strict block finalizer) Completion.In := by
  cases finalizer with
  | none =>
    rw [executeFinally]
    exact body
  | some stmts =>
    rw [PlainFinalizer] at plain
    rw [executeFinally]
    exact .thenFinally _ _ body fun w' _ => execute_all_tame strict none stmts w' plain nofun

end

end Ecma

/-!
Activations of functions, and global and eval code, stay in the part that they are given.
-/

namespace Ecma

open Ecma.Program Run

variable {w : Region} {moves : Bool}

/-! Activations. -/

theorem mapped_in (header : Header) (frame : FrameId) (env : EnvironmentId) (index : Nat) (names : List String)
    (framed : w.frame frame) (inside : w.environment env) (i : Nat) (a : Alias)
    (found : (mappedFrom header frame env index names).lookup i = some a) : a.In w := by
  induction names generalizing index with
  | nil => cases found
  | cons name rest hyp =>
    rw [mappedFrom] at found
    split at found
    · exact hyp _ found
    · rw [List.lookup_cons] at found
      split at found
      · cases found
        unfold aliasOf
        split
        · exact framed
        · exact inside
      · exact hyp _ found

theorem new_arguments_tame (header : Header) (f : ObjectId) (frame : FrameId) (env : EnvironmentId)
    (args : List Value) (own : w.object f) (framed : w.frame frame) (inside : w.environment env)
    (all : Values.In w args) : Tame w moves (newArguments header f frame env args) Region.object := by
  refine .here _ _ fun h k w' upto alike => ?_
  refine .object _ (fun h => .object h _ rfl (new_arguments_writable header frame env args _ _))
    ⟨fun link same => ?_, nofun, PropertyTable.all_of_elements _ _ ?_ fun v member => ?_⟩ ⟨?_, nofun⟩ fun i a found => ?_
  · cases same
    exact alike.intrinsic _ (by decide)
  · split
    · exact (Dictionary.all_cons _ _ _).mpr ⟨data_primitive _ rfl _ _ _, poisoned_all (alike.intrinsic _ (by decide)) _⟩
    · refine (Dictionary.all_cons _ _ _).mpr ⟨data_primitive _ rfl _ _ _, names_single _ _ ?_⟩
      exact (Descriptor.all_data _ _ _ _).mpr (upto.object f own)
  · obtain ⟨u, there, same⟩ := List.mem_map.mp member
    exact Option.some.inj same ▸ (all u there).more upto
  · split
    · change List.Nodup ("length" :: Dictionary.keys (poisoned ["caller", "callee"]))
      rw [poisoned_keys]
      decide
    · change List.Nodup ["length", "callee"]
      decide
  · change (if header.strict then [] else _ : List (Nat × Alias)).lookup i = some a at found
    split at found
    · cases found
    · exact mapped_in header frame env 0 _ (upto.frame _ framed) (upto.environment _ inside) i a found

theorem bind_name_tame (header : Header) (env : EnvironmentId) (name : String) (v : Value) (inside : w.environment env)
    (held : v.In w) : Tame w moves (bindName header env name v) Vague := by
  unfold bindName
  split
  · exact .slot _ _ held
  · refine tame_heap _ _ fun h k w' upto alike => ?_
    have inside := inside.more upto
    have held := held.more upto
    dsimp only
    rw [Heap.has_binding_alike h k alike env name inside]
    refine ⟨rfl, tame_ite _ _ _ _ ?_ (set_binding_tame _ _ _ _ inside held)⟩
    exact tame_then _ _ _ _ (create_binding_tame _ _ _ inside) fun _ _ more =>
      set_binding_tame _ _ _ _ (inside.more more) (held.more more)

theorem bind_params_tame (header : Header) (env : EnvironmentId) (names : List String) (args : List Value)
    (inside : w.environment env) (all : Values.In w args) : Tame w moves (bindParams header env names args) Vague := by
  induction names generalizing w args with
  | nil => exact tame_any _
  | cons name names hyp =>
    exact tame_then _ _ _ _ (bind_name_tame header env name _ inside (head_in args all)) fun _ w' upto =>
      hyp _ (inside.more upto) (Values.In.more upto (tail_in args all))

theorem bind_functions_tame (header : Header) (env : EnvironmentId) (routines : List Routine)
    (plain : PlainRoutines routines) (around : w.environment env) :
    Tame w moves (bindFunctions header env routines) Vague := by
  induction routines generalizing w with
  | nil => exact tame_any _
  | cons routine rest hyp =>
    rw [PlainRoutines] at plain
    refine .bind _ _ _ _ (.function routine env plain.1 around) fun f w₁ upto₁ inside => ?_
    have around := around.more upto₁
    split
    · exact tame_then _ _ _ _ (bind_name_tame header env _ (.object f) around inside) fun _ w₂ upto₂ =>
        hyp plain.2 (around.more upto₂)
    · exact hyp plain.2 around

theorem bind_arguments_tame (header : Header) (env : EnvironmentId) (id : ObjectId) (inside : w.environment env)
    (own : w.object id) : Tame w moves (bindArguments header env id) Vague := by
  unfold bindArguments
  split
  · exact .slot _ (.object id) own
  · refine tame_heap _ _ fun h k w' upto alike => ?_
    have inside := inside.more upto
    have own : (Value.object id).In w' := upto.object id own
    have same : k.bindings? env = h.bindings? env := by
      rw [Heap.bindings?, Heap.bindings?, alike.environment env inside]
    rw [same]
    exact ⟨rfl, tame_ite _ _ _ _ (bind_constant_tame _ _ _ inside own) (bind_name_tame _ _ _ _ inside own)⟩

theorem bind_variables_tame (header : Header) (env : EnvironmentId) (names : List String) (inside : w.environment env) :
    Tame w moves (bindVariables header env names) Vague := by
  induction names generalizing w with
  | nil => exact tame_any _
  | cons name rest hyp =>
    refine tame_heap _ _ fun h k w₁ upto₁ alike => ?_
    have inside := inside.more upto₁
    dsimp only
    rw [Heap.has_binding_alike h k alike env name inside]
    refine ⟨rfl, tame_ite _ _ _ _ ?_ (hyp inside)⟩
    refine tame_then _ _ _ _ (create_binding_tame _ _ _ inside) fun _ w₂ upto₂ => ?_
    have inside := inside.more upto₂
    exact tame_then _ _ _ _ (set_binding_tame _ _ _ _ inside trivial) fun _ _ upto₃ => hyp (inside.more upto₃)

theorem functions_plain (routine : Routine) (plain : routine.Plain) :
    PlainRoutines routine.functions ∧ PlainStmts routine.body := by
  cases routine with
  | mk header functions body =>
    rw [Routine.Plain] at plain
    exact plain

theorem instantiate_tame (routine : Routine) (f : ObjectId) (frame : FrameId) (env : EnvironmentId)
    (args : List Value) (plain : routine.Plain) (own : w.object f) (framed : w.frame frame) (inside : w.environment env)
    (all : Values.In w args) : Tame w moves (instantiate routine f frame env args) Vague := by
  refine tame_then _ _ _ _ (bind_params_tame _ _ _ _ inside all) fun _ w₁ upto₁ => ?_
  refine tame_then _ _ _ _ (bind_functions_tame _ _ _ (functions_plain routine plain).1 (inside.more upto₁))
    fun _ w₂ upto₂ => ?_
  have more := upto₁.trans upto₂
  have inside := inside.more more
  refine tame_ite _ _ _ _ ?_ (bind_variables_tame _ _ _ inside)
  refine .bind _ _ _ _ (new_arguments_tame _ _ _ _ _ (own.more more) (more.frame _ framed) inside
    (Values.In.more more all)) fun id w₃ upto₃ made => ?_
  have inside := inside.more upto₃
  exact tame_then _ _ _ _ (bind_arguments_tame _ _ id inside made) fun _ _ upto₄ =>
    bind_variables_tame _ _ _ (inside.more upto₄)

theorem receiver_of_tame (header : Header) (this : Value) (held : this.In w) :
    Tame w moves (receiverOf header this) Value.In := by
  have global : Tame w moves (pure (.object Intrinsic.global) : Run Value) Value.In :=
    .here _ _ fun h k w' _ alike => tame_value (.object Intrinsic.global) (alike.intrinsic _ (by decide))
  refine tame_ite _ _ _ _ (tame_value this held) ?_
  split
  · exact global
  · exact global
  · exact tame_made_object _ (to_object_tame _ held)

theorem returned_in (c : Completion) (held : c.In w) : (returned c).In w := by
  unfold returned
  split
  · exact result_in c held
  · trivial

/-! Global and eval code. -/

theorem redeclare_global_tame (name : String) (deletable : Bool) :
    Tame w moves (redeclareGlobal name deletable) Vague := by
  refine tame_heap _ _ fun h k w' _ alike => ?_
  have inside := alike.intrinsic Intrinsic.global (by decide)
  rw [Heap.property_alike h k alike _ _ inside]
  refine ⟨rfl, ?_⟩
  split
  · exact tame_any _
  · refine tame_ite _ _ _ _ ?_ (tame_ite _ _ _ _ (tame_refused _ _) (tame_any _))
    exact tame_discard _ _ (descriptor_tame _ _ _ _ _ _ _ inside trivial)

theorem declare_function_tame (env : EnvironmentId) (strict deletable : Bool) (name : String) (f : ObjectId)
    (inside : w.environment env) (own : w.object f) :
    Tame w moves (declareFunction env strict deletable name f) Vague := by
  have bound (w' : Region) (more : w.Upto w') : Tame w' moves (setBinding env name (.object f) strict) Vague :=
    set_binding_tame env name (.object f) strict (more.environment env inside) (more.object f own)
  refine tame_heap _ _ fun h k w' upto alike => ?_
  have inside := inside.more upto
  dsimp only
  rw [Heap.has_binding_alike h k alike env name inside]
  refine ⟨rfl, tame_ite _ _ _ _ ?_ (tame_ite _ _ _ _ ?_ (bound _ upto))⟩
  · exact tame_then _ _ _ _ (create_binding_tame _ _ _ inside) fun _ w' more => bound w' (upto.trans more)
  · exact tame_then _ _ _ _ (redeclare_global_tame _ _) fun _ w' more => bound w' (upto.trans more)

theorem declare_functions_tame (env : EnvironmentId) (strict deletable : Bool) (routines : List Routine)
    (plain : PlainRoutines routines) (around : w.environment env) :
    Tame w moves (declareFunctions env strict deletable routines) Vague := by
  induction routines generalizing w with
  | nil => exact tame_any _
  | cons routine rest hyp =>
    rw [PlainRoutines] at plain
    unfold declareFunctions
    split
    · refine .bind _ _ _ _ (.function routine env plain.1 around) fun f w₁ upto₁ inside => ?_
      exact tame_then _ _ _ _ (declare_function_tame _ _ _ _ _ (around.more upto₁) inside) fun _ w₂ upto₂ =>
        hyp plain.2 ((around.more upto₁).more upto₂)
    · exact hyp plain.2 around

theorem declare_variables_tame (env : EnvironmentId) (strict deletable : Bool) (names : List String)
    (inside : w.environment env) : Tame w moves (declareVariables env strict deletable names) Vague := by
  induction names generalizing w with
  | nil => exact tame_any _
  | cons name rest hyp =>
    refine tame_heap _ _ fun h k w₁ upto₁ alike => ?_
    have inside := inside.more upto₁
    dsimp only
    rw [Heap.has_binding_alike h k alike env name inside]
    refine ⟨rfl, tame_ite _ _ _ _ ?_ (hyp inside)⟩
    refine tame_then _ _ _ _ (create_binding_tame _ _ _ inside) fun _ w₂ upto₂ => ?_
    have inside := inside.more upto₂
    exact tame_then _ _ _ _ (set_binding_tame _ _ _ _ inside trivial) fun _ _ upto₃ => hyp (inside.more upto₃)

theorem declare_tame (routine : Routine) (env : EnvironmentId) (deletable : Bool) (plain : routine.Plain)
    (around : w.environment env) : Tame w moves (declare routine env deletable) Vague := by
  exact tame_then _ _ _ _ (declare_functions_tame _ _ _ _ (functions_plain routine plain).1 around) fun _ _ upto =>
    declare_variables_tame _ _ _ _ (around.more upto)

theorem code_body_tame (routine : Routine) (env : EnvironmentId) (deletable : Bool) (plain : routine.Plain)
    (around : w.environment env) : Tame w true (declare routine env deletable >>= fun _ =>
      executeAll routine.header.strict none routine.body >>= fun c => pure c.result) Value.In := by
  refine tame_then _ _ _ _ (declare_tame routine env deletable plain around) fun _ w' _ => ?_
  refine tame_after _ _ _ _ (execute_all_tame _ none _ w' (functions_plain routine plain).2
      (OptionalValue.in_none _))
    fun _ c _ given _ upto => ?_
  exact (result_in c given).more upto

end Ecma
