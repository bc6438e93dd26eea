import Ecma.Program.Tree

set_option autoImplicit false

/-!
How a statement ends: with a value or none, and possibly with a jump to a statement around it.
-/

namespace Ecma

open Ecma.Program

/-- A jump; one without a label goes to the nearest loop, or for a break also to the nearest
`switch`. -/
inductive Jump where
  | returning
  | breaking (label : Option Label)
  | continuing (label : Option Label)
deriving DecidableEq, Repr, Inhabited

/-- Whether a statement right behind the labels is the target of a jump to a label. -/
def isOwn (labels : List Label) : Option Label → Bool
  | none => true
  | some label => labels.contains label

structure Completion where
  value : Option Value := none
  jump : Option Jump := none
deriving DecidableEq, Inhabited

namespace Completion

def normal : Completion := {}

/-- Fills in a value where there is none. -/
def orValue (c : Completion) (value : Option Value) : Completion :=
  { c with value := c.value.or value }

/-- The value, undefined where there is none. -/
def result (c : Completion) : Value :=
  c.value.getD .undefined

/-- A labelled statement takes the breaks to its label. -/
def leaveLabel (label : Label) (c : Completion) : Completion :=
  if c.jump = some (.breaking (some label)) then ⟨c.value, none⟩ else c

/-- What a loop does after a round of its body. -/
inductive AfterRound where
  | again
  | leave
  | pass
deriving DecidableEq, Repr, Inhabited

/-- A loop takes the jumps without a label and those to its own labels. -/
def afterRound (labels : List Label) (c : Completion) : AfterRound :=
  match c.jump with
  | none => .again
  | some (.continuing label) => if isOwn labels label then .again else .pass
  | some (.breaking label) => if isOwn labels label then .leave else .pass
  | some .returning => .pass

/-- Whether a `switch` statement takes the jump. -/
def leavesSwitch (labels : List Label) (c : Completion) : Bool :=
  match c.jump with
  | some (.breaking label) => isOwn labels label
  | _ => false

end Completion

end Ecma
