set_option autoImplicit false

/-!
The static scopes of one parsed unit. A scope names what it binds and what is referenced from it;
scopes and codes are known by the order in which they were opened, so an outer scope always has the
smaller number.
-/

namespace Ecma.Scope

abbrev ScopeId := Nat

/-- The kind of a unit of code. -/
inductive CodeKind where
  | global
  | eval
  | function
deriving DecidableEq, Repr, Inhabited

/-- What opens a scope. -/
inductive ScopeKind where
  | global
  | eval
  | function
  | handler
  | namedFunction
  | withObject
deriving DecidableEq, Repr, Inhabited

/-- One scope. `refs` are names referenced from it or from inner scopes of the same code that do
not bind them; `inbound` are names referenced from inner functions and not bound on the way up;
`locals` are the bindings that live in slots of the local frame. -/
structure Scope where
  kind : ScopeKind
  outer : Option ScopeId
  code : Nat
  inners : List ScopeId := []
  defs : List String := []
  refs : List String := []
  inbound : List String := []
  locals : List (String × Nat) := []
  directEval : Bool := false
  collapsed : Bool := false
deriving DecidableEq, Repr, Inhabited

/-- What the analysis keeps of a unit of code. -/
structure CodeScopes where
  kind : CodeKind
  usesWith : Bool := false
  slots : Nat := 0
deriving DecidableEq, Repr, Inhabited

/-- All scopes of a parsed unit. -/
structure Tree where
  scopes : Array Scope := #[]
  codes : Array CodeScopes := #[]
deriving DecidableEq, Repr, Inhabited

/-- Adds a name at the end unless it is there. -/
def addName (names : List String) (name : String) : List String :=
  if names.contains name then names else names ++ [name]

namespace Tree

def scope (t : Tree) (id : ScopeId) : Scope :=
  t.scopes[id]?.getD default

def code (t : Tree) (id : Nat) : CodeScopes :=
  t.codes[id]?.getD default

def modify (t : Tree) (id : ScopeId) (f : Scope → Scope) : Tree :=
  { t with scopes := t.scopes.modify id f }

def modifyCode (t : Tree) (id : Nat) (f : CodeScopes → CodeScopes) : Tree :=
  { t with codes := t.codes.modify id f }

/-- Opens a unit of code; its number is the count of those before it. -/
def newCode (t : Tree) (kind : CodeKind) : Tree × Nat :=
  ({ t with codes := t.codes.push { kind := kind } }, t.codes.size)

/-- Opens a scope; its number is the count of those before it. -/
def newScope (t : Tree) (kind : ScopeKind) (outer : Option ScopeId) (code : Nat) :
    Tree × ScopeId :=
  let id := t.scopes.size
  let t := { t with scopes := t.scopes.push { kind := kind, outer := outer, code := code } }
  match outer with
  | none => (t, id)
  | some outer => (t.modify outer fun s => { s with inners := s.inners ++ [id] }, id)

def addDef (t : Tree) (id : ScopeId) (name : String) : Tree :=
  t.modify id fun s => { s with defs := addName s.defs name }

def addRef (t : Tree) (id : ScopeId) (name : String) : Tree :=
  t.modify id fun s => { s with refs := addName s.refs name }

def markDirectEval (t : Tree) (id : ScopeId) : Tree :=
  t.modify id fun s => { s with directEval := true }

def markWith (t : Tree) (code : Nat) : Tree :=
  t.modifyCode code fun c => { c with usesWith := true }

end Tree

end Ecma.Scope
