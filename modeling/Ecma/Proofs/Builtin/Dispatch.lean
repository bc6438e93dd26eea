import Ecma.Proofs.Builtin.Object

set_option autoImplicit false

/-!
The functions of primitives, errors, the console and the global object are native, and so is what is done
with any provided function.
-/

namespace Ecma

open Run

variable {limits : Bool}

/-! Strings. -/

theorem text_argument_native (args : List Value) : Native limits (textArgument args) := by
  cases args with
  | nil => exact Native.pure _
  | cons v rest => exact to_text_native v

theorem receiver_text_native (this : Value) (method : String) : Native limits (receiverText this method) := by
  unfold receiverText
  split
  · exact Native.bind _ _ (throw_type_error_native _) fun _ => to_text_native _
  · exact to_text_native _

theorem string_value_face (h : Heap) (v : Value) :
    stringValue? h v = match v with
      | .string s => some s
      | .object id =>
        match (h.kind id).face with
        | .string s => some s
        | _ => none
      | _ => none := by
  cases v with
  | object id =>
    rw [stringValue?]
    dsimp only
    cases h.kind id with
    | function f => cases f <;> rfl
    | _ => rfl
  | _ => rfl

theorem string_value_native (this : Value) : Native limits (stringValue this) := by
  refine native_heap _ (fun h k same => ?_) fun h => ?_
  · simp only [string_value_face, same.kind]
  split
  · exact Native.pure _
  · exact throw_unfit_native _ _

theorem slice_text_native (s : String) (start stop : Value) : Native limits (sliceText s start stop) := by
  refine Native.bind _ _ (to_integer_native _) fun start => ?_
  exact Native.bind _ _ (range_end_native _ _) fun _ => Native.pure _

theorem substring_text_native (s : String) (start stop : Value) :
    Native limits (substringText s start stop) := by
  refine Native.bind _ _ (to_integer_native _) fun start => ?_
  cases stop with
  | undefined => exact Native.pure _
  | _ => exact Native.bind _ _ (to_integer_native _) fun _ => Native.pure _

theorem string_run_native (f : StringFunction) (this : Value) (args : List Value) :
    Native limits (f.run this args) := by
  unfold StringFunction.run
  cases f with
  | constructor => exact Native.bind _ _ (text_argument_native _) fun _ => Native.pure _
  | toString => exact string_value_native _
  | valueOf => exact string_value_native _
  | charAt =>
    refine Native.bind _ _ (receiver_text_native _ _) fun s => ?_
    exact Native.bind _ _ (to_integer_native _) fun _ => Native.pure _
  | charCodeAt =>
    refine Native.bind _ _ (receiver_text_native _ _) fun s => ?_
    exact Native.bind _ _ (to_integer_native _) fun _ => Native.pure _
  | indexOf =>
    refine Native.bind _ _ (receiver_text_native _ _) fun s => ?_
    refine Native.bind _ _ (to_text_native _) fun needle => ?_
    exact Native.bind _ _ (to_integer_native _) fun _ => Native.pure _
  | slice =>
    refine Native.bind _ _ (receiver_text_native _ _) fun s => ?_
    exact Native.bind _ _ (slice_text_native _ _ _) fun _ => Native.pure _
  | substring =>
    refine Native.bind _ _ (receiver_text_native _ _) fun s => ?_
    exact Native.bind _ _ (substring_text_native _ _ _) fun _ => Native.pure _

/-! Numbers and booleans. -/

theorem number_argument_native (args : List Value) : Native limits (numberArgument args) := by
  cases args with
  | nil => exact Native.pure _
  | cons v rest => exact to_number_native v

theorem number_value_face (h : Heap) (v : Value) :
    numberValue? h v = match v with
      | .number x => some x
      | .object id =>
        match (h.kind id).face with
        | .number x => some x
        | _ => none
      | _ => none := by
  cases v with
  | object id =>
    rw [numberValue?]
    dsimp only
    cases h.kind id with
    | function f => cases f <;> rfl
    | _ => rfl
  | _ => rfl

theorem receiver_number_native (this : Value) (method : String) :
    Native limits (receiverNumber this method) := by
  refine native_heap _ (fun h k same => ?_) fun h => ?_
  · simp only [number_value_face, same.kind]
  split
  · exact Native.pure _
  · exact throw_unfit_native _ _

theorem number_text_native (x : Float) (radix : Value) : Native limits (numberText x radix) := by
  have rest (radix : Float) : Native limits (if radix == 10.0 then pure (Number.text x)
      else pure (Number.radixText x (Number.clamp 36 radix)) : Run String) :=
    native_ite _ _ _ (Native.pure _) (Native.pure _)
  have checked (radix : Float) : Native limits (if !(2.0 ≤ radix && radix ≤ 36.0) then
      Run.throwError .rangeError "toString() radix must be between 2 and 36" >>= fun (_ : PUnit) =>
        if radix == 10.0 then pure (Number.text x)
        else pure (Number.radixText x (Number.clamp 36 radix))
      else if radix == 10.0 then pure (Number.text x)
        else pure (Number.radixText x (Number.clamp 36 radix)) : Run String) :=
    native_ite _ _ _ (Native.bind _ _ (throw_error_native _ _) fun _ => rest radix) (rest radix)
  cases radix with
  | undefined => exact checked 10.0
  | _ => exact Native.bind _ _ (to_integer_native _) fun radix => checked radix

theorem number_run_native (f : NumberFunction) (this : Value) (args : List Value) :
    Native limits (f.run this args) := by
  unfold NumberFunction.run
  cases f with
  | constructor => exact Native.bind _ _ (number_argument_native _) fun _ => Native.pure _
  | toString =>
    refine Native.bind _ _ (receiver_number_native _ _) fun x => ?_
    exact Native.bind _ _ (number_text_native _ _) fun _ => Native.pure _
  | valueOf => exact Native.bind _ _ (receiver_number_native _ _) fun _ => Native.pure _

theorem boolean_value_face (h : Heap) (v : Value) :
    booleanValue? h v = match v with
      | .boolean b => some b
      | .object id =>
        match (h.kind id).face with
        | .boolean b => some b
        | _ => none
      | _ => none := by
  cases v with
  | object id =>
    rw [booleanValue?]
    dsimp only
    cases h.kind id with
    | function f => cases f <;> rfl
    | _ => rfl
  | _ => rfl

theorem receiver_boolean_native (this : Value) (method : String) :
    Native limits (receiverBoolean this method) := by
  refine native_heap _ (fun h k same => ?_) fun h => ?_
  · simp only [boolean_value_face, same.kind]
  split
  · exact Native.pure _
  · exact throw_unfit_native _ _

theorem boolean_run_native (f : BooleanFunction) (this : Value) (args : List Value) :
    Native limits (f.run this args) := by
  unfold BooleanFunction.run
  cases f with
  | constructor => exact Native.pure _
  | toString => exact Native.bind _ _ (receiver_boolean_native _ _) fun _ => Native.pure _
  | valueOf => exact Native.bind _ _ (receiver_boolean_native _ _) fun _ => Native.pure _

/-! Errors. -/

theorem construct_error_native (prototype : ObjectId) (args : List Value) :
    Native limits (constructError prototype args) := by
  unfold constructError
  split
  · exact Native.bind _ _ (new_error_from_native _ _) fun _ => Native.pure _
  · refine Native.bind _ _ (to_text_native _) fun message => ?_
    exact Native.bind _ _ (new_error_from_native _ _) fun _ => Native.pure _

theorem text_property_native (id : ObjectId) (name other : String) :
    Native limits (textProperty id name other) := by
  refine Native.bind _ _ (get_native _ _) fun v => ?_
  split
  · exact Native.pure _
  · exact to_text_native _

theorem error_summary_native (id : ObjectId) : Native limits (errorSummary id) := by
  refine Native.bind _ _ (text_property_native _ _ _) fun name => ?_
  refine Native.bind _ _ (text_property_native _ _ _) fun message => ?_
  exact native_ite _ _ _ (Native.pure _) (native_ite _ _ _ (Native.pure _) (Native.pure _))

theorem receiver_object_native (this : Value) (method : String) :
    Native limits (receiverObject this method) := by
  unfold receiverObject
  split
  · exact Native.pure _
  · exact throw_unfit_native _ _

theorem stack_lines_face (h : Heap) (id : ObjectId) :
    stackLines h id = match (h.kind id).face with
      | .error frames => frames.map StackFrame.text
      | _ => [] := by
  rw [stackLines]
  cases h.kind id with
  | function f => cases f <;> rfl
  | _ => rfl

theorem error_run_native (f : ErrorFunction) (this : Value) (args : List Value) :
    Native limits (f.run this args) := by
  unfold ErrorFunction.run
  cases f with
  | constructor => exact construct_error_native _ _
  | native kind => exact construct_error_native _ _
  | toString =>
    refine Native.bind _ _ (receiver_object_native _ _) fun id => ?_
    exact Native.bind _ _ (error_summary_native _) fun _ => Native.pure _
  | stack =>
    refine Native.bind _ _ (receiver_object_native _ _) fun id => ?_
    refine Native.bind _ _ (error_summary_native _) fun summary => ?_
    refine native_heap _ (fun h k same => ?_) fun h => Native.pure _
    rw [stack_lines_face, stack_lines_face, same.kind]

/-! The console. -/

theorem console_line_native (args : List Value) : Native limits (consoleLine args) := by
  exact Native.bind _ _ (to_texts_native _) fun _ => Native.pure _

theorem output_outward (line : String) : Outward fun r => { r with stdout := r.stdout ++ line } := by
  refine ⟨fun _ => rfl, fun _ => rfl, fun _ => rfl, fun _ => rfl, fun _ => rfl, fun _ => .inl rfl, ?_⟩
  exact fun _ _ same => { same with stdout := congrArg (· ++ line) same.stdout }

theorem write_output_native (line : String) : Native limits (modify fun r => { r with stdout := r.stdout ++ line }) := by
  exact Native.beside _ (output_outward line) (fun _ n later => ⟨n, later, rfl⟩) fun _ _ => ⟨rfl, rfl⟩

theorem error_outward (line : String) : Outward fun r => { r with stderr := r.stderr ++ line } := by
  refine ⟨fun _ => rfl, fun _ => rfl, fun _ => rfl, fun _ => rfl, fun _ => rfl, fun _ => .inl rfl, ?_⟩
  exact fun _ _ same => { same with stderr := congrArg (· ++ line) same.stderr }

theorem write_error_native (line : String) : Native limits (modify fun r => { r with stderr := r.stderr ++ line }) := by
  exact Native.beside _ (error_outward line) (fun _ n later => ⟨n, later, rfl⟩) fun _ _ => ⟨rfl, rfl⟩

theorem console_run_native (f : ConsoleFunction) (args : List Value) : Native limits (f.run args) := by
  refine Native.bind _ _ (console_line_native _) fun line => ?_
  cases f with
  | log => exact Native.bind _ _ (write_output_native line) fun _ => Native.pure _
  | error => exact Native.bind _ _ (write_error_native line) fun _ => Native.pure _

/-! The global object. -/

theorem config_outward (f : Config → Config) (collapse : ∀ c, (f c).collapse = c.collapse)
    (face : ∀ c, (f c).face = f c.face) : Outward fun r => { r with config := f r.config } := by
  refine ⟨fun _ => rfl, fun _ => rfl, fun _ => rfl, fun _ => rfl, fun r => collapse r.config,
    fun _ => .inl rfl, fun r s same => { same with config := ?_ }⟩
  change (f r.config).face = (f s.config).face
  rw [face, face, same.config]

theorem modify_config_native (f : Config → Config) (collapse : ∀ c, (f c).collapse = c.collapse)
    (face : ∀ c, (f c).face = f c.face) : Native true (modifyConfig f) := by
  exact Native.beside _ (config_outward f collapse face) (fun _ n later => ⟨n, later, rfl⟩) fun kept => by cases kept

theorem forget_steps_outward : Outward fun r => { r with steps := 0 } := by
  refine ⟨fun _ => rfl, fun _ => rfl, fun _ => rfl, fun _ => rfl, fun _ => rfl, fun _ => .inr rfl, ?_⟩
  exact fun _ _ same => { same with steps := rfl }

theorem forget_steps_native : Native true (modify fun r => { r with steps := 0 }) := by
  exact Native.beside _ forget_steps_outward (fun _ _ _ => ⟨0, Nat.le_refl 0, rfl⟩) fun kept => by cases kept

theorem set_trace_limit_native (x : Float) : Native true (setTraceLimit x) := by
  refine native_ite _ _ _ ?_ (Native.pure _)
  refine Native.bind _ _ (modify_config_native _ (fun _ => rfl) fun _ => rfl) fun _ => ?_
  exact Native.setTraceLimit _

theorem change_limit_native (name : String) (v : Value) : Native true (changeLimit name v) := by
  unfold changeLimit
  split
  · refine Native.bind _ _ (to_number_native _) fun x => ?_
    refine Native.bind _ _ (modify_config_native _ (fun _ => rfl) fun _ => rfl) fun _ => ?_
    exact forget_steps_native
  · refine Native.bind _ _ (to_number_native _) fun x => ?_
    cases limitOf x with
    | some limit => exact modify_config_native _ (fun _ => rfl) fun _ => rfl
    | none => exact Native.pure _
  · exact Native.bind _ _ (to_number_native _) fun x => set_trace_limit_native x
  · exact Native.pure _

theorem limit_value_same (r s : Realm) (same : r.SameView s) (name : String) :
    limitValue r name = limitValue s name := by
  unfold limitValue
  rw [Realm.steps_limit_same r s same, Realm.depth_limit_same r s same, Realm.trace_limit_same r s same]

theorem handlers_outward (f : Dictionary Value → Dictionary Value) :
    Outward fun r => { r with handlers := f r.handlers } := by
  refine ⟨fun _ => rfl, fun _ => rfl, fun _ => rfl, fun _ => rfl, fun _ => rfl, fun _ => .inl rfl, ?_⟩
  exact fun _ _ same => { same with handlers := congrArg f same.handlers }

theorem modify_handlers_native (f : Dictionary Value → Dictionary Value) :
    Native limits (modify fun r => { r with handlers := f r.handlers }) := by
  exact Native.beside _ (handlers_outward f) (fun _ n later => ⟨n, later, rfl⟩) fun _ _ => ⟨rfl, rfl⟩

theorem set_handler_native (name : String) (handler : Value) : Native limits (setHandler name handler) := by
  refine native_heap _ (fun h k same => ?_) fun h => ?_
  · rw [Heap.is_callable_same h k same]
  have rest : Native limits (modify fun r => { r with handlers := r.handlers.put name handler }) :=
    modify_handlers_native fun handlers => handlers.put name handler
  exact native_ite _ _ _ (Native.bind _ _ (throw_type_error_native _) fun _ => rest) rest

theorem indirect_eval_native (args : List Value) : Native limits (indirectEval args) := by
  unfold indirectEval evaluateText
  split
  · exact Native.evaluation _
  · exact Native.pure _

-- Only one function changes the limits.
theorem global_run_native (f : GlobalFunction) (args : List Value)
    (allowed : f = .setSystemProperty → limits = true) : Native limits (f.run args) := by
  unfold GlobalFunction.run
  cases f with
  | eval => exact indirect_eval_native _
  | isNaN => exact Native.bind _ _ (to_number_native _) fun _ => Native.pure _
  | isFinite => exact Native.bind _ _ (to_number_native _) fun _ => Native.pure _
  | parseInt =>
    refine Native.bind _ _ (to_text_native _) fun text => ?_
    exact Native.bind _ _ (to_signed_native _) fun _ => Native.pure _
  | parseFloat => exact Native.bind _ _ (to_text_native _) fun _ => Native.pure _
  | setSystemProperty =>
    cases allowed rfl
    refine Native.bind _ _ (to_text_native _) fun name => ?_
    exact Native.bind _ _ (change_limit_native _ _) fun _ => Native.pure _
  | getSystemProperty =>
    refine Native.bind _ _ (to_text_native _) fun name => ?_
    refine Native.look _ (fun r s same => ?_) fun r => Native.pure _
    rw [limit_value_same r _ same]
    rfl
  | setSystemHandler =>
    refine Native.bind _ _ (to_text_native _) fun name => ?_
    exact Native.bind _ _ (set_handler_native _ _) fun _ => Native.pure _
  | getSystemHandler =>
    refine Native.bind _ _ (to_text_native _) fun name => ?_
    refine Native.look _ (fun r s same => ?_) fun r => Native.pure _
    rw [same.handlers]
    rfl
  | removeSystemHandler =>
    refine Native.bind _ _ (to_text_native _) fun name => ?_
    refine Native.look _ (fun r s same => ?_) fun r => ?_
    · rw [same.handlers]
      rfl
    · refine Native.bind _ _ ?_ fun _ => Native.pure _
      exact modify_handlers_native fun handlers => handlers.erase name
  | customFunction =>
    refine Native.bind _ _ (to_text_native _) fun name => ?_
    exact Native.bind _ _ (new_host_function_native _) fun _ => Native.pure _

/-! All provided functions. -/

theorem builtin_run_native (f : Builtin) (this : Value) (args : List Value)
    (allowed : f = .global .setSystemProperty → limits = true) : Native limits (f.run this args) := by
  cases f with
  | global f => exact global_run_native f args fun same => allowed (congrArg Builtin.global same)
  | object f => exact object_run_native f this args
  | function f => exact function_run_native f this args
  | array f => exact array_run_native f this args
  | string f => exact string_run_native f this args
  | number f => exact number_run_native f this args
  | boolean f => exact boolean_run_native f this args
  | error f => exact error_run_native f this args
  | console f => exact console_run_native f args

theorem builtin_construct_native (f : Builtin) (args : List Value)
    (allowed : f = .global .setSystemProperty → limits = true) : Native limits (f.construct args) := by
  unfold Builtin.construct
  split
  · refine Native.bind _ _ (text_argument_native _) fun s => ?_
    exact Native.bind _ _ (new_string_object_native s) fun _ => Native.pure _
  · refine Native.bind _ _ (number_argument_native _) fun x => ?_
    exact Native.bind _ _ (Native.newObject _ _ _ rfl) fun _ => Native.pure _
  · exact Native.bind _ _ (Native.newObject _ _ _ rfl) fun _ => Native.pure _
  · exact builtin_run_native _ _ _ allowed

end Ecma
