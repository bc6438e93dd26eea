import Ecma.Scope.Tree

set_option autoImplicit false

/-!
Where a name is to be found when code runs: in a slot, in an environment a known number of links
outward, in the global object, or by a search.
-/

namespace Ecma.Scope

inductive Resolution where
  /-- A slot of the local frame. -/
  | slot (index : Nat)
  /-- The declarative environment so many links outward. -/
  | fixed (skip : Nat)
  /-- A property of the global object that the same program declares. -/
  | global
  /-- Unknown before the code runs; the search starts so many links outward. -/
  | dynamic (skip : Nat)
deriving DecidableEq, Repr, Inhabited

/-- A scope that binds exactly the names it lists, whatever code runs in it. -/
def Scope.isClosed (s : Scope) : Bool :=
  !s.directEval && (s.kind == .function || s.kind == .handler || s.kind == .namedFunction)

namespace Tree

/-- Looks outward; `sure` holds while every scope passed was closed, and `skip` counts the
environments passed until then. -/
def resolveFrom (t : Tree) (name : String) : Nat → ScopeId → Bool → Nat → Resolution
  | 0, _, _, skip => .dynamic skip
  | fuel + 1, id, sure, skip =>
    let s := t.scope id
    match s.locals.lookup name with
    | some index => .slot index
    | none =>
      if s.kind = .eval then .dynamic skip
      else if s.defs.contains name then
        if !sure then .dynamic skip
        else if s.kind = .global then .global
        else .fixed skip
      else
        let sure := sure && s.isClosed
        let skip := if sure && !s.collapsed then skip + 1 else skip
        match s.outer with
        | none => .dynamic skip
        | some outer => resolveFrom t name fuel outer sure skip

/-- Resolves a name referenced from a scope. -/
def resolve (t : Tree) (id : ScopeId) (name : String) : Resolution :=
  resolveFrom t name t.scopes.size id true 0

end Tree

end Ecma.Scope
