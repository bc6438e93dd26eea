import Ecma.Scope.Tree

set_option autoImplicit false

/-!
Which bindings are captured, and which can live in slots. Going outward from the innermost scopes,
references that a scope does not bind are passed on to the scope around it. After that a binding that
no inner function refers to gets a slot of its code, unless something in the code may reach it by
name.
-/

namespace Ecma.Scope

/-- What an analysed inner scope passes on to the scope around it. -/
def Scope.absorb (outer inner : Scope) : Scope :=
  let free := inner.refs.filter fun name => !inner.defs.contains name
  let passed := inner.inbound.filter fun name => !inner.defs.contains name
  let sameCode := inner.code == outer.code
  { outer with
    directEval := outer.directEval || inner.directEval
    refs := if sameCode then free.foldl addName outer.refs else outer.refs
    inbound := passed.foldl addName (if sameCode then outer.inbound else free.foldl addName outer.inbound) }

/-- Whether the bindings of a scope may become slots. -/
def Scope.mayCollapse (s : Scope) (c : CodeScopes) : Bool :=
  !s.directEval && !c.usesWith && c.kind == .function && s.kind != .withObject

/-- Numbers the bindings that no inner function refers to, from the first free slot on. -/
def slotsFrom (inbound : List String) : List String → Nat → List (String × Nat)
  | [], _ => []
  | name :: rest, slot =>
    if inbound.contains name then slotsFrom inbound rest slot
    else (name, slot) :: slotsFrom inbound rest (slot + 1)

namespace Tree

/-- Gives slots to the bindings of a scope whose inner scopes are done. -/
def allocate (t : Tree) (id : ScopeId) : Tree :=
  let s := t.scope id
  let c := t.code s.code
  if s.mayCollapse c then
    let locals := slotsFrom s.inbound s.defs c.slots
    let t := t.modify id fun s =>
      { s with locals := locals, collapsed := s.defs.length == locals.length }
    t.modifyCode s.code fun c => { c with slots := c.slots + locals.length }
  else t

/-- Passes on what a scope leaves open to the scope around it. -/
def passOn (t : Tree) (id : ScopeId) : Tree :=
  let s := t.scope id
  match s.outer with
  | none => t
  | some outer => t.modify outer fun o => o.absorb s

/-- Passes on the references of all scopes. Inner scopes have the larger numbers, so every scope is
complete when its turn comes. -/
def passAllOn (t : Tree) : Tree :=
  (List.range t.scopes.size).reverse.foldl passOn t

/-- The scopes inside a scope and the scope itself, each after those inside it; the fuel bounds the
nesting. -/
def postorder (t : Tree) : Nat → ScopeId → List ScopeId
  | 0, id => [id]
  | fuel + 1, id => (t.scope id).inners.flatMap (postorder t fuel) ++ [id]

/-- Gives slots to the bindings of all scopes, inner scopes first. -/
def allocateAll (t : Tree) : Tree :=
  let roots := (List.range t.scopes.size).filter fun id => (t.scope id).outer.isNone
  (roots.flatMap (t.postorder t.scopes.size)).foldl allocate t

/-- Analyses every scope. Without `collapse` only the references are computed and every binding stays
in an environment. -/
def analyze (t : Tree) (collapse : Bool) : Tree :=
  if collapse then t.passAllOn.allocateAll else t.passAllOn

end Tree

end Ecma.Scope
