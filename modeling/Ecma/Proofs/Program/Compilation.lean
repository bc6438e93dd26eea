import Ecma.Eval.Activation
import Ecma.Proofs.Number.IndexText
import Ecma.Proofs.Program.Meaning
import Ecma.Proofs.Program.Typing
import Ecma.Proofs.Scope.Slots
import Ecma.Proofs.Syntax.Part

set_option autoImplicit false

/-!
Compiled expressions do what the expressions mean. The types that are found for an expression bound
the values it gives, and this is what allows the operators that are chosen by them.
-/

namespace Ecma

open Ecma.Program Ecma.Syntax Run

/-- Neither a name nor a member, so nothing that could be assigned to. -/
def Program.Expr.isValue : Expr → Bool
  | .variable _ => false
  | .member _ _ => false
  | _ => true

-- What a compiled expression owes to the meaning of its source, wherever it may stand.
structure Renders (m : Machine) (strict : Bool) (t : Typed) (e : Meaning) : Prop where
  value : evaluate strict t.expr m = e.value m
  typed : Gives m (evaluate strict t.expr) t.types
  constant : ∀ v, t.expr = .constant v → v.isObject = false
  target : evaluateTarget strict (asTarget t.expr) m = e.target m
  call : ∀ (site : Site) (args : List Expr) (arguments : Run (List Value)),
    evaluateAll strict args m = arguments m →
      evaluate strict (asCall site args t.expr) m = e.call site arguments strict m
  typeName : evaluate strict (compileTypeOf t).expr m = e.typeName m

section

variable (m : Machine) (strict : Bool)

theorem type_of_primitive (h : Heap) (v : Value) (primitive : v.isObject = false) :
    h.typeOf v = typeOfConstant v := by
  cases v with
  | object id => cases primitive
  | _ => rfl

theorem type_name_typed (t : Typed) : Gives m (evaluate strict (compileTypeOf t).expr) .ofString := by
  have place_typed (p : Place) : Gives m p.typeOf .ofString := by
    unfold Place.typeOf
    split
    · exact gives_pure m _ _ rfl
    · exact gives_bind m _ _ _ fun _ => gives_bind m _ _ _ fun _ => gives_pure m _ _ rfl
  rw [compileTypeOf]
  split
  · exact gives_pure m _ _ rfl
  · exact gives_bind m _ _ _ fun p => place_typed p
  · rw [evaluate]
    exact gives_bind m _ _ _ fun _ => gives_bind m _ _ _ fun _ => gives_pure m _ _ rfl

theorem as_target_value (e : Expr) (isValue : e.isValue = true) : asTarget e = .value e := by
  cases e <;> first | rfl | cases isValue

theorem as_call_value (site : Site) (args : List Expr) (e : Expr) (isValue : e.isValue = true) :
    asCall site args e = .call site e args := by
  cases e <;> first | rfl | cases isValue

theorem value_of_constant (t : Typed) (v : Value) (known : t.value? = some v) : t.expr = .constant v := by
  rw [Typed.value?] at known
  split at known
  · rename_i found
    injection known with same
    rw [found, same]
  · cases known

/-- An expression that is neither a name nor a member owes only its value. -/
theorem value_renders (t : Typed) (run : Run Value) (isValue : t.expr.isValue = true)
    (value : evaluate strict t.expr m = run m) (typed : Gives m (evaluate strict t.expr) t.types)
    (constant : ∀ v, t.expr = .constant v → v.isObject = false) :
    Renders m strict t (.ofValue run) where
  value := value
  typed := typed
  constant := constant
  target := by
    rw [as_target_value _ isValue, evaluateTarget]
    exact bind_same _ _ _ m (discard_same _ _ m value)
  call := by
    intro site args arguments same
    rw [as_call_value site args _ isValue, evaluate, Meaning.call, Meaning.ofValue, bind_assoc]
    refine bind_agree _ _ _ _ m value fun f _ _ _ => ?_
    rw [pure_bind]
    exact bind_same _ _ _ m same
  typeName := by
    rw [compileTypeOf]
    split
    · rename_i v known
      rw [known, evaluate_constant] at value
      have found : (Meaning.typeNameOf run) m = (Meaning.typeNameOf (pure v)) m :=
        bind_same _ _ _ m value.symm
      change evaluate strict (Typed.constant (.string (typeOfConstant v))).expr m = Meaning.typeNameOf run m
      rw [found, Typed.constant, evaluate_constant]
      funext r
      exact congrArg (fun name => EStateM.Result.ok (Value.string name) r)
        (type_of_primitive r.heap v (constant v known)).symm
    · rename_i v named
      rw [named] at isValue
      cases isValue
    · rw [evaluate]
      exact bind_same _ _ _ m value

theorem name_renders (v : Variable) : Renders m strict ⟨.variable v, .all⟩ (.ofName v strict) where
  value := by
    rw [evaluate_variable]
    rfl
  typed := fun _ _ _ _ => within_all _
  constant := by
    intro w known
    cases known
  target := by
    rw [asTarget, evaluate_name_target]
    rfl
  call := by
    intro site args arguments same
    rw [asCall, evaluate, Meaning.call, Meaning.ofName]
    simp only [bind_assoc, pure_bind]
    refine bind_second _ _ _ m fun p => bind_second _ _ _ m fun f => bind_second _ _ _ m fun h => ?_
    exact bind_same _ _ _ m same
  typeName := by
    rw [compileTypeOf, evaluate]
    rfl

/-- A key that is known is the key that the value of its expression would be made. -/
theorem key_agrees (key : Typed) (e : Meaning) (renders : Renders m strict key e) :
    evaluateKey strict (compileKey key) m = (e.value >>= toPropertyKey) m := by
  rw [compileKey]
  cases known : key.value? with
  | none =>
    dsimp only
    rw [evaluateKey]
    exact bind_same _ _ _ m renders.value
  | some v =>
    have constant := value_of_constant key v known
    have value := renders.value
    rw [constant, evaluate_constant] at value
    have first : (e.value >>= toPropertyKey) m = toPropertyKey v m := bind_same _ (pure v) _ m value.symm
    have primitive := renders.constant v constant
    dsimp only
    rw [first, evaluate_known_key, PropertyKey.ofPrimitive]
    cases v with
    | number x =>
      unfold toPropertyKey
      dsimp only
      rw [Value.primitiveText]
      cases index : PropertyKey.ofIndexNumber? x with
      | none => rfl
      | some k => rw [index_number_key x k index]
    | object id => cases primitive
    | _ => rfl

theorem member_of_agrees (object key : Typed) (o k : Meaning) (objectRenders : Renders m strict object o)
    (keyRenders : Renders m strict key k) :
    (do
      let base ← evaluate strict object.expr
      let key ← evaluateKey strict (compileKey key)
      return (base, key)) m = (Meaning.memberOf o k) m := by
  rw [Meaning.memberOf]
  refine bind_agree _ _ _ _ m objectRenders.value fun base _ _ _ => ?_
  have keys := key_agrees m strict key k keyRenders
  rw [← bind_assoc]
  exact bind_same _ _ _ m keys

theorem member_renders (object key : Typed) (o k : Meaning) (objectRenders : Renders m strict object o)
    (keyRenders : Renders m strict key k) :
    Renders m strict ⟨.member object.expr (compileKey key), .all⟩ (.ofMember o k) := by
  have parts := member_of_agrees m strict object key o k objectRenders keyRenders
  have value : evaluate strict (.member object.expr (compileKey key)) m = (Meaning.ofMember o k).value m := by
    have read := bind_same _ _ (fun part => getOf part.1 part.2) m parts
    simp only [bind_assoc, pure_bind] at read
    rw [evaluate]
    exact read
  exact {
    value := value
    typed := fun _ _ _ _ => within_all _
    constant := by
      intro w known
      cases known
    target := by
      have place := bind_same _ _ (fun part => pure (Place.property part.1 part.2)) m parts
      simp only [bind_assoc, pure_bind] at place
      rw [asTarget, evaluateTarget]
      exact place
    call := by
      intro site args arguments same
      have called := bind_same _ _ (fun part => do
        let f ← getOf part.1 part.2
        let args ← evaluateAll strict args
        callAt site f part.1 args) m parts
      simp only [bind_assoc, pure_bind] at called
      rw [asCall, evaluate, called, Meaning.call, Meaning.ofMember]
      simp only [bind_assoc, pure_bind]
      refine bind_second _ _ _ m fun part => bind_second _ _ _ m fun f => ?_
      exact bind_same _ _ _ m same
    typeName := by
      rw [compileTypeOf, evaluate]
      exact bind_same _ _ _ m value }

/-- The value of a constant expression is known on every machine. -/
theorem constant_value (t : Typed) (e : Meaning) (renders : Renders m strict t e) (v : Value)
    (known : t.value? = some v) : e.value m = (pure v : Run Value) m := by
  have value := renders.value
  rw [value_of_constant t v known, evaluate_constant] at value
  exact value.symm

theorem constant_primitive (t : Typed) (e : Meaning) (renders : Renders m strict t e) (v : Value)
    (known : t.value? = some v) : v.isObject = false := by
  exact renders.constant v (value_of_constant t v known)

theorem constant_renders (v : Value) (run : Run Value) (primitive : v.isObject = false)
    (value : run m = (pure v : Run Value) m) : Renders m strict (.constant v) (.ofValue run) := by
  refine value_renders m strict (.constant v) run rfl ?_ ?_ ?_
  · rw [value, Typed.constant, evaluate_constant]
  · rw [Typed.constant, evaluate_constant]
    exact gives_pure m _ v (within_self _)
  · intro w same
    cases same
    exact primitive

theorem sign_renders (op : Sign) (t : Typed) (e : Meaning) (renders : Renders m strict t e) :
    Renders m strict (compileSign op t) (.ofValue (Meaning.sign op e)) := by
  rw [compileSign]
  cases known : t.value? with
  | some v =>
    refine constant_renders m strict _ _ rfl ?_
    have first := bind_same _ _ (fun v => do return Value.number (op.apply (← toNumber v))) m
      (constant_value m strict t e renders v known)
    rw [Meaning.sign, first, bind_pure_at, primitive_number v (constant_primitive m strict t e renders v known)]
    rfl
  | none =>
    refine value_renders m strict _ _ rfl ?_ ?_ (fun _ same => by cases same)
    · dsimp only
      rw [evaluate, Meaning.sign]
      refine bind_agree _ _ _ _ m renders.value fun v r r' gave => ?_
      by_cases primitive : t.isPrimitive = true
      · have typed := renders.typed r v r' gave
        rw [if_pos primitive, primitive_number v (primitive_of_type v t.types typed primitive)]
        rfl
      · rw [if_neg primitive]
    · dsimp only
      rw [evaluate]
      refine gives_bind m _ _ _ fun v => ?_
      split
      · exact gives_pure m _ _ rfl
      · exact gives_bind m _ _ _ fun x => gives_pure m _ _ rfl

theorem not_renders (t : Typed) (e : Meaning) (renders : Renders m strict t e) :
    Renders m strict (compileNot t) (.ofValue (Meaning.unary .not e strict)) := by
  rw [compileNot]
  cases known : t.value? with
  | some v =>
    refine constant_renders m strict _ _ rfl ?_
    exact bind_same _ _ _ m (constant_value m strict t e renders v known)
  | none =>
    refine value_renders m strict _ _ rfl ?_ ?_ (fun _ same => by cases same)
    · dsimp only
      rw [evaluate]
      exact bind_same _ _ _ m renders.value
    · dsimp only
      rw [evaluate]
      exact gives_bind m _ _ _ fun v => gives_pure m _ _ rfl

theorem fold_agrees (op : BinaryOp) (a b v : Value) (left : a.isObject = false) (right : b.isObject = false)
    (folded : fold? op a b = some v) : operate op a b = pure v ∧ v.isObject = false := by
  rw [fold?] at folded
  cases numeric : numeric? op with
  | some f =>
    rw [numeric] at folded
    injection folded with same
    rw [← same]
    exact ⟨numeric_agrees op f a b numeric left right, rfl⟩
  | none =>
    rw [numeric] at folded
    dsimp only at folded
    split at folded
    · rename_i add
      injection folded with same
      rw [← same, add, operate_add, primitive_sum a b left right]
      refine ⟨rfl, ?_⟩
      cases a <;> cases b <;> rfl
    · cases folded

theorem binary_renders (op : BinaryOp) (left right : Typed) (a b : Meaning)
    (leftRenders : Renders m strict left a) (rightRenders : Renders m strict right b) :
    Renders m strict (compileBinary op left right) (.ofValue (Meaning.binary op a b)) := by
  rw [compileBinary]
  cases known : foldConstants op left right with
  | some v =>
    rw [foldConstants] at known
    split at known
    · rename_i x y leftKnown rightKnown
      split at known
      · obtain ⟨same, primitive⟩ := fold_agrees op x y v
          (constant_primitive m strict left a leftRenders x leftKnown)
          (constant_primitive m strict right b rightRenders y rightKnown) known
        refine constant_renders m strict v _ primitive ?_
        rw [Meaning.binary, bind_same _ _ _ m (constant_value m strict left a leftRenders x leftKnown),
          bind_pure_at, bind_same _ _ _ m (constant_value m strict right b rightRenders y rightKnown),
          bind_pure_at, same]
      · cases known
    · cases known
  | none =>
    refine value_renders m strict _ _ rfl ?_ ?_ (fun _ same => by cases same)
    · dsimp only
      rw [evaluate, Meaning.binary]
      refine bind_agree _ _ _ _ m leftRenders.value fun x r r' first => ?_
      refine bind_agree _ _ _ _ m rightRenders.value fun y s s' second => ?_
      rw [operation_agrees op x y left.types right.types (leftRenders.typed r x r' first)
        (rightRenders.typed s y s' second)]
    · dsimp only
      rw [evaluate]
      intro r v r' ended
      obtain ⟨x, between, first, rest⟩ := bind_ok _ _ m r r' v ended
      obtain ⟨y, after, second, last⟩ := bind_ok _ _ m between r' v rest
      have leftTyped := leftRenders.typed r x between first
      have rightTyped := rightRenders.typed between y after second
      rw [operation_agrees op x y left.types right.types leftTyped rightTyped] at last
      exact operate_typed m op x y left.types right.types leftTyped rightTyped after v r' last

theorem logical_renders (op : LogicalOp) (left right : Typed) (a b : Meaning)
    (leftRenders : Renders m strict left a) (rightRenders : Renders m strict right b) :
    Renders m strict ⟨.logical op left.expr right.expr, left.types.union right.types⟩
      (.ofValue (Meaning.logical op a b)) := by
  refine value_renders m strict _ _ rfl ?_ ?_ (fun _ same => by cases same)
  · dsimp only
    rw [evaluate, Meaning.logical]
    refine bind_agree _ _ _ _ m leftRenders.value fun v _ _ _ => ?_
    split
    · exact rightRenders.value
    · rfl
  · dsimp only
    rw [evaluate]
    intro r v r' ended
    obtain ⟨x, between, first, rest⟩ := bind_ok _ _ m r r' v ended
    split at rest
    · exact within_trans _ _ _ (rightRenders.typed between v r' rest) (within_union_right _ _)
    · cases rest
      exact within_trans _ _ _ (leftRenders.typed r _ _ first) (within_union_left _ _)

theorem conditional_renders (test yes no : Typed) (a b c : Meaning) (testRenders : Renders m strict test a)
    (yesRenders : Renders m strict yes b) (noRenders : Renders m strict no c) :
    Renders m strict ⟨.conditional test.expr yes.expr no.expr, yes.types.union no.types⟩
      (.ofValue (Meaning.conditional a b c)) := by
  refine value_renders m strict _ _ rfl ?_ ?_ (fun _ same => by cases same)
  · dsimp only
    rw [evaluate, Meaning.conditional]
    refine bind_agree _ _ _ _ m testRenders.value fun v _ _ _ => ?_
    split
    · exact yesRenders.value
    · exact noRenders.value
  · dsimp only
    rw [evaluate]
    refine gives_bind m _ _ _ fun v => ?_
    split
    · exact gives_wider m _ _ _ yesRenders.typed (within_union_left _ _)
    · exact gives_wider m _ _ _ noRenders.typed (within_union_right _ _)

theorem assign_renders (target value : Typed) (a b : Meaning) (targetRenders : Renders m strict target a)
    (valueRenders : Renders m strict value b) :
    Renders m strict ⟨.assign (asTarget target.expr) value.expr, value.types⟩
      (.ofValue (Meaning.assign none a b strict)) := by
  refine value_renders m strict _ _ rfl ?_ ?_ (fun _ same => by cases same)
  · dsimp only
    rw [evaluate, Meaning.assign]
    refine bind_agree _ _ _ _ m targetRenders.target fun p _ _ _ => ?_
    exact bind_same _ _ _ m valueRenders.value
  · dsimp only
    rw [evaluate]
    refine gives_bind m _ _ _ fun p => ?_
    intro r v r' ended
    obtain ⟨x, between, first, rest⟩ := bind_ok _ _ m r r' v ended
    obtain ⟨_, after, _, last⟩ := bind_ok _ _ m between r' v rest
    cases last
    exact valueRenders.typed r _ between first

theorem compound_renders (op : BinaryOp) (target value : Typed) (a b : Meaning)
    (targetRenders : Renders m strict target a) (valueRenders : Renders m strict value b) :
    Renders m strict ⟨.compound op (asTarget target.expr) value.expr, compoundTypes op⟩
      (.ofValue (Meaning.assign (some op) a b strict)) := by
  refine value_renders m strict _ _ rfl ?_ ?_ (fun _ same => by cases same)
  · dsimp only
    rw [evaluate, Meaning.assign]
    refine bind_agree _ _ _ _ m targetRenders.target fun p _ _ _ => ?_
    refine bind_second _ _ _ m fun old => ?_
    exact bind_same _ _ _ m valueRenders.value
  · dsimp only
    rw [evaluate]
    refine gives_bind m _ _ _ fun p => gives_bind m _ _ _ fun old => gives_bind m _ _ _ fun operand => ?_
    intro r v r' ended
    obtain ⟨x, between, first, rest⟩ := bind_ok _ _ m r r' v ended
    obtain ⟨_, after, _, last⟩ := bind_ok _ _ m between r' v rest
    cases last
    exact operate_typed m op old operand .all .all (within_all _) (within_all _) r _ between first

theorem void_renders (t : Typed) (e : Meaning) (renders : Renders m strict t e) :
    Renders m strict ⟨.void t.expr, .ofUndefined⟩ (.ofValue (Meaning.unary .void e strict)) := by
  refine value_renders m strict _ _ rfl ?_ ?_ (fun _ same => by cases same)
  · dsimp only
    rw [evaluate]
    exact bind_same _ _ _ m (discard_same _ _ m renders.value)
  · dsimp only
    rw [evaluate]
    exact gives_bind m _ _ _ fun _ => gives_pure m _ _ rfl

theorem delete_renders (t : Typed) (e : Meaning) (renders : Renders m strict t e) :
    Renders m strict ⟨.delete (asTarget t.expr), .ofBoolean⟩ (.ofValue (Meaning.unary .delete e strict)) := by
  refine value_renders m strict _ _ rfl ?_ ?_ (fun _ same => by cases same)
  · dsimp only
    rw [evaluate]
    exact bind_same _ _ _ m renders.target
  · dsimp only
    rw [evaluate]
    exact gives_bind m _ _ _ fun _ => gives_bind m _ _ _ fun _ => gives_pure m _ _ rfl

theorem type_of_renders (t : Typed) (e : Meaning) (renders : Renders m strict t e) :
    Renders m strict (compileTypeOf t) (.ofValue (Meaning.unary .typeOf e strict)) := by
  have types : (compileTypeOf t).types = .ofString := by
    rw [compileTypeOf]
    split <;> rfl
  have isValue : (compileTypeOf t).expr.isValue = true := by
    rw [compileTypeOf]
    split <;> rfl
  refine value_renders m strict _ _ isValue renders.typeName ?_ ?_
  · rw [types]
    exact type_name_typed m strict t
  · intro v same
    rw [compileTypeOf] at same
    split at same <;> cases same
    rfl

theorem update_renders (op : UpdateOp) (before : Bool) (t : Typed) (e : Meaning)
    (renders : Renders m strict t e) :
    Renders m strict ⟨.update op before (asTarget t.expr), .ofNumber⟩
      (.ofValue do
        let p ← e.target
        updatePlace op before p strict) := by
  refine value_renders m strict _ _ rfl ?_ ?_ (fun _ same => by cases same)
  · dsimp only
    rw [evaluate]
    exact bind_same _ _ _ m renders.target
  · dsimp only
    rw [evaluate]
    refine gives_bind m _ _ _ fun _ => gives_bind m _ _ _ fun _ => gives_bind m _ _ _ fun _ => ?_
    exact gives_bind m _ _ _ fun _ => gives_pure m _ _ rfl

theorem named_function_typed (routine : Routine) (own : Option OwnName) :
    Gives m (newNamedFunction routine own) .ofObject := by
  unfold newNamedFunction
  refine gives_bind m _ _ _ fun outer => ?_
  split
  · exact gives_bind m _ _ _ fun f => gives_pure m _ _ rfl
  · dsimp only
    split
    all_goals
      refine gives_bind m _ _ _ fun env => gives_bind m _ _ _ fun f => ?_
      split <;> exact gives_bind m _ _ _ fun _ => gives_pure m _ _ rfl

end

/-! Every expression. The induction is on the syntax tree. -/

section

variable (m : Machine) (s : Surroundings) (strict : Bool)

mutual

theorem expression_renders (constructs : m.ConstructsObjects) (e : Expression) :
    Renders m strict (compileExpr s e) (meaning s strict e) := by
  cases e with
  | literal span value =>
    rw [compile_literal, meaning_literal]
    cases value <;> exact constant_renders m strict _ _ rfl rfl
  | this span =>
    rw [compileExpr, meaning]
    refine value_renders m strict _ _ rfl ?_ (fun _ _ _ _ => within_all _) (fun _ same => by cases same)
    dsimp only
    rw [evaluate]
  | identifier id =>
    rw [compileExpr, meaning]
    exact name_renders m strict (s.resolve id)
  | array span elements =>
    rw [compileExpr, meaning]
    refine value_renders m strict _ _ rfl ?_ ?_ (fun _ same => by cases same)
    · dsimp only
      rw [evaluate]
      exact bind_same _ _ _ m (elements_agree constructs elements)
    · dsimp only
      rw [evaluate]
      exact gives_bind m _ _ _ fun _ => gives_bind m _ _ _ fun _ => gives_pure m _ _ rfl
  | object span properties =>
    rw [compileExpr, meaning]
    refine value_renders m strict _ _ rfl ?_ ?_ (fun _ same => by cases same)
    · dsimp only
      rw [evaluate]
      refine bind_second _ _ _ m fun id => ?_
      exact bind_same _ _ _ m (properties_agree constructs id properties)
    · dsimp only
      rw [evaluate]
      exact gives_bind m _ _ _ fun _ => gives_bind m _ _ _ fun _ => gives_pure m _ _ rfl
  | function span code ownScope =>
    rw [compileExpr, meaning]
    refine value_renders m strict _ _ rfl ?_ ?_ (fun _ same => by cases same)
    · dsimp only
      rw [evaluate]
    · dsimp only
      rw [evaluate]
      exact named_function_typed m _ _
  | member span object key =>
    rw [compileExpr, meaning]
    exact member_renders m strict _ _ _ _ (expression_renders constructs object) (expression_renders constructs key)
  | call span callee arguments =>
    rw [compileExpr, meaning]
    have renders := expression_renders constructs callee
    have called := renders.call (s.site span callee) _ _ (arguments_agree constructs arguments)
    have isValue : (asCall (s.site span callee) (compileArguments s arguments)
        (compileExpr s callee).expr).isValue = true := by
      unfold asCall
      split <;> rfl
    refine value_renders m strict _ _ isValue called (fun _ _ _ _ => within_all _) ?_
    intro v same
    dsimp only at same
    unfold asCall at same
    split at same <;> cases same
  | new span callee arguments =>
    rw [compileExpr, meaning]
    refine value_renders m strict _ _ rfl ?_ ?_ (fun _ same => by cases same)
    · dsimp only
      rw [evaluate]
      refine bind_agree _ _ _ _ m (expression_renders constructs callee).value fun f _ _ _ => ?_
      exact bind_same _ _ _ m (arguments_agree constructs arguments)
    · dsimp only
      rw [evaluate]
      refine gives_bind m _ _ _ fun f => gives_bind m _ _ _ fun args => ?_
      exact construct_at_typed m constructs _ f args
  | unary span op argument =>
    have renders := expression_renders constructs argument
    cases op <;> rw [compileExpr, meaning]
    case typeOf => exact type_of_renders m strict _ _ renders
    case delete => exact delete_renders m strict _ _ renders
    case void => exact void_renders m strict _ _ renders
    case not => exact not_renders m strict _ _ renders
    case minus => exact sign_renders m strict .minus _ _ renders
    case plus => exact sign_renders m strict .plus _ _ renders
    case bitNot => exact sign_renders m strict .bitNot _ _ renders
  | update span op before argument =>
    rw [compileExpr, meaning]
    exact update_renders m strict op before _ _ (expression_renders constructs argument)
  | binary span op left right =>
    rw [compileExpr, meaning]
    exact binary_renders m strict op _ _ _ _ (expression_renders constructs left) (expression_renders constructs right)
  | logical span op left right =>
    rw [compileExpr, meaning]
    exact logical_renders m strict op _ _ _ _ (expression_renders constructs left) (expression_renders constructs right)
  | conditional span test yes no =>
    rw [compileExpr, meaning]
    exact conditional_renders m strict _ _ _ _ _ _ (expression_renders constructs test) (expression_renders constructs yes)
      (expression_renders constructs no)
  | assign span op target value =>
    have targetRenders := expression_renders constructs target
    have valueRenders := expression_renders constructs value
    cases op with
    | none =>
      rw [compileExpr, meaning]
      exact assign_renders m strict _ _ _ _ targetRenders valueRenders
    | some op =>
      rw [compileExpr, meaning]
      exact compound_renders m strict op _ _ _ _ targetRenders valueRenders
  | sequence span items =>
    have agrees := sequence_agrees constructs .ofUndefined .undefined rfl items
    rw [compileExpr, meaning]
    refine value_renders m strict _ _ rfl ?_ ?_ (fun _ same => by cases same)
    · dsimp only
      rw [evaluate]
      exact agrees.1
    · dsimp only
      rw [evaluate]
      exact agrees.2

theorem elements_agree (constructs : m.ConstructsObjects) (elements : List Syntax.Element) :
    evaluateElements strict (compileElements s elements) m = elementsMeaning s strict elements m := by
  cases elements with
  | nil => rw [compileElements, evaluateElements, elementsMeaning]
  | cons element rest =>
    cases element with
    | hole =>
      rw [compileElements, evaluateElements, elementsMeaning]
      exact bind_same _ _ _ m (elements_agree constructs rest)
    | item e =>
      rw [compileElements, evaluateElements, elementsMeaning]
      refine bind_agree _ _ _ _ m (expression_renders constructs e).value fun v _ _ _ => ?_
      exact bind_same _ _ _ m (elements_agree constructs rest)

theorem properties_agree (constructs : m.ConstructsObjects) (id : ObjectId)
    (properties : List Syntax.Property) :
    evaluateProperties strict id (compileProperties s properties) m =
      propertiesMeaning s strict id properties m := by
  cases properties with
  | nil => rw [compileProperties, evaluateProperties, propertiesMeaning]
  | cons property rest =>
    cases property with
    | mk key kind value =>
      rw [compileProperties, evaluateProperties, propertiesMeaning]
      refine bind_agree _ _ _ _ m (expression_renders constructs value).value fun v _ _ _ => ?_
      exact bind_second _ _ _ m fun _ => properties_agree constructs id rest

theorem arguments_agree (constructs : m.ConstructsObjects) (arguments : List Expression) :
    evaluateAll strict (compileArguments s arguments) m = argumentsMeaning s strict arguments m := by
  cases arguments with
  | nil => rw [compileArguments, evaluateAll, argumentsMeaning]
  | cons e rest =>
    rw [compileArguments, evaluateAll, argumentsMeaning]
    refine bind_agree _ _ _ _ m (expression_renders constructs e).value fun v _ _ _ => ?_
    exact bind_same _ _ _ m (arguments_agree constructs rest)

theorem sequence_agrees (constructs : m.ConstructsObjects) (types : TypeSet) (last : Value)
    (typed : (TypeSet.of last).isWithin types = true) (items : List Expression) :
    evaluateLast strict last (compileSequence s types items).1 m = lastMeaning s strict last items m ∧
      Gives m (evaluateLast strict last (compileSequence s types items).1)
        (compileSequence s types items).2 := by
  cases items with
  | nil =>
    rw [compileSequence, evaluateLast, lastMeaning]
    exact ⟨rfl, gives_pure m types last typed⟩
  | cons e rest =>
    have first := expression_renders constructs e
    rw [compileSequence, lastMeaning]
    dsimp only
    rw [evaluateLast]
    constructor
    · refine bind_agree _ _ _ _ m first.value fun v r r' gave => ?_
      exact (sequence_agrees constructs (compileExpr s e).types v (first.typed r v r' gave) rest).1
    · intro r v r' ended
      obtain ⟨x, between, gave, second⟩ := bind_ok _ _ m r r' v ended
      exact (sequence_agrees constructs (compileExpr s e).types x (first.typed r x between gave) rest).2
        between v r' second

end

end

-- On every machine and in every realm: the types bound what is given, a constant is its value and
-- changes nothing, and what the compiled expression does is what the expression means.
theorem compiled_expression_faithful (host : HostFunction) (lookup : Lookup) (rounds depth : Nat)
    (s : Surroundings) (strict : Bool) (e : Expression) (r : Realm) :
    (∀ (v : Value) (r' : Realm),
      evaluate strict (compileExpr s e).expr (machine host lookup rounds depth) r = .ok v r' →
        (TypeSet.of v).isWithin (compileExpr s e).types = true) ∧
    (∀ c : Value, (compileExpr s e).value? = some c →
      (meaning s strict e).value (machine host lookup rounds depth) r = .ok c r) ∧
    evaluate strict (compileExpr s e).expr (machine host lookup rounds depth) r =
      (meaning s strict e).value (machine host lookup rounds depth) r := by
  have constructs := machine_constructs host lookup rounds depth
  have renders := expression_renders _ s strict constructs e
  refine ⟨fun v r' ended => renders.typed r v r' ended, fun c known => ?_, congrFun renders.value r⟩
  rw [constant_value _ strict _ _ renders c known]
  rfl

end Ecma

/-!
Where a compiled function keeps its names: in slots of its frame, each name in one of its own, or in the
environment of the call.
-/

namespace Ecma.Program

open Ecma.Scope Ecma.Syntax

-- The slots of a header, for the names that the unit binds.
structure Header.Placed (h : Header) (names : List String) : Prop where
  inside : ∀ name index, Header.slot? h name = some index → index < h.slots
  distinct : ∀ name other index, Header.slot? h name = some index → Header.slot? h other = some index →
    name = other
  collapsed : h.collapsed = true → ∀ name ∈ names, (Header.slot? h name).isSome = true

/-- The names of the functions that a unit declares. -/
def Routine.functionNames (routine : Routine) : List String :=
  routine.functions.filterMap fun f => f.header.name

/-- The names that a function binds when it is called. -/
def Routine.names (routine : Routine) : List String :=
  routine.header.params ++ "arguments" :: (routine.functionNames ++ routine.header.variables)

theorem compiled_header (c : Surroundings) (code : Code) : (compileCode c code).header = c.header code.header := by
  obtain ⟨h, functions, body⟩ := code
  rw [compileCode]
  rfl

theorem compiled_functions (c : Surroundings) (code : Code) :
    (compileCode c code).functions = compileCodes { c with labels := [] } code.functions := by
  obtain ⟨h, functions, body⟩ := code
  rw [compileCode]
  rfl

theorem compiled_names (c : Surroundings) (codes : List Code) :
    ((compileCodes c codes).filterMap fun f => f.header.name) = codes.filterMap fun f => f.header.name := by
  induction codes with
  | nil =>
    rw [compileCodes]
    rfl
  | cons code rest hyp =>
    rw [compileCodes, List.filterMap_cons, List.filterMap_cons, hyp, compiled_header]
    rfl

-- In every accepted text, the names of a function have their places.
theorem compiled_placed (kind : CodeKind) (parsed : Parsed) (accepted : Accepted kind parsed) (code : Code)
    (within : Part.Within (.code code) (.code parsed.code)) (isFunction : code.header.kind = .function)
    (text : String) (labels : List String) :
    (compileCode ⟨parsed.scopes, text, labels⟩ code).header.Placed
      (compileCode ⟨parsed.scopes, text, labels⟩ code).names := by
  obtain ⟨⟨tree, fits⟩, _⟩ := accepted_fits kind parsed accepted
  obtain ⟨collapse, scopes⟩ := fits.analysed
  obtain ⟨_, placed⟩ := (within_fits tree _ _ within fits.code).1 isFunction
  have analysed := tree.analyze_analysed fits.formed collapse
  rw [← scopes] at analysed
  have alike := analysed.alike code.header.scope
  have owner : (parsed.scopes.scope code.header.scope).code = code.header.id := alike.code.symm.trans placed.code
  rw [Routine.names, Routine.functionNames, compiled_header, compiled_functions, compiled_names]
  refine ⟨fun name index found => ?_, fun name other index found again => ?_, fun collapsed name member => ?_⟩
  · have below := (analysed.slotted.found _ name index found).2.2.2
    rwa [owner] at below
  · exact (analysed.slotted.distinct _ _ name other index found again rfl).2
  · refine (analysed.slotted.collapsed _ collapsed).2 name (alike.defs ▸ ?_)
    rw [placed.defs]
    simpa [Surroundings.header, List.mem_filterMap] using member

end Ecma.Program
