import Ecma.Heap.Store

set_option autoImplicit false

/-!
What the entries of the heap refer to directly, for walks over everything that can be reached.
-/

namespace Ecma

namespace Heap

/-- The values a function holds beside its properties. -/
def callableReferences : Callable → List Value
  | .bound target receiver args => .object target :: receiver :: args
  | _ => []

/-- The values an object holds by its kind. -/
def kindReferences (h : Heap) : ObjectKind → List Value
  | .function f => callableReferences f
  | .arguments mapped => mapped.map fun entry => h.readAlias entry.2
  | .error frames => frames.filterMap fun frame => frame.function.map .object
  | _ => []

/-- The values that an object refers to: its prototype, what its properties hold, and what belongs to
its kind. -/
def references (h : Heap) (id : ObjectId) : List Value :=
  let o := h.object id
  o.prototype.toList.map .object ++ o.properties.descriptors.flatMap Descriptor.references ++
    h.kindReferences o.kind

/-- The values that an environment refers to. -/
def environmentReferences (h : Heap) (env : EnvironmentId) : List Value :=
  match (h.environment env).record with
  | .declarative bindings => bindings.map fun entry => entry.2.value
  | .object id _ => [.object id]

end Heap

end Ecma
