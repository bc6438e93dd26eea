import Ecma.Heap.Enumerator
import Ecma.Heap.References
import Ecma.Inspect
import Ecma.Main
import Ecma.Proofs.Program.Compilation
import Ecma.Proofs.Scope.Tree
import Ecma.Proofs.Builtin.Dispatch
import Ecma.Proofs.Heap.Access
import Ecma.Proofs.Scope.Growth
import Ecma.Proofs.Scope.Resolution
import Ecma.Proofs.Scope.Allocation
import Ecma.Proofs.Storage.Change
import Ecma.Proofs.Storage.Operation
import Ecma.Proofs.Storage.Outward
import Ecma.Proofs.Storage.Simulation
import Ecma.Proofs.Syntax.Building
import Ecma.Proofs.Syntax.Parse
import Ecma.Proofs.Heap.Lock
import Ecma.Proofs.Heap.Edit
import Ecma.Proofs.Run.Course
import Ecma.Proofs.Run.Traced
import Ecma.Proofs.Eval.Entry
import Ecma.Proofs.Run.Signal
import Ecma.Proofs.Run.Budget
import Ecma.Proofs.Realm.Lock
import Ecma.Proofs.Realm.Budget
import Ecma.Proofs.Number.Comparison
import Ecma.Proofs.Program.Selection
import Ecma.Proofs.Program.Meaning
import Ecma.Proofs.Statement.Jump
import Ecma.Proofs.Statement.Delivery
import Ecma.Proofs.Statement.Environment
import Ecma.Proofs.Syntax.Part
import Ecma.Proofs.Syntax.Strict
import Ecma.Proofs.Storage.Place
import Ecma.Proofs.Storage.Reference
import Ecma.Proofs.Storage.Compiled
import Ecma.Proofs.Eval.Opening
import Ecma.Proofs.Eval.Instantiation
import Ecma.Proofs.Heap.Enumeration
import Ecma.Proofs.Realm.Grounded
import Ecma.Proofs.Storage.Binding
import Ecma.Proofs.Grammar.Brace
import Ecma.Proofs.Grammar.Trail
import Ecma.Proofs.Heap.Ordinary
import Ecma.Proofs.Operation.Refusal
import Ecma.Proofs.Operation.Array
import Ecma.Proofs.Syntax.Constructed
import Ecma.Proofs.Realm.Writing
import Ecma.Proofs.Reach.Alike
import Ecma.Proofs.Reach.Complete
import Ecma.Proofs.Builtin.Describe
import Ecma.Proofs.Realm.Freeze
import Ecma.Proofs.Eval.Declaration
import Ecma.Proofs.Storage.Entrance
import Ecma.Proofs.Operation.Primitive
import Ecma.Proofs.Operation.Equality
import Ecma.Proofs.Builtin.Bound
import Ecma.Proofs.Operation.Life
import Ecma.Proofs.Syntax.StringLiteral
import Ecma.Proofs.Syntax.Grouping
import Ecma.Proofs.Builtin.Slice
import Ecma.Proofs.Text.Line
import Ecma.Proofs.Property.Key
import Ecma.Proofs.Number.Literal
import Ecma.Proofs.Number.Text
import Ecma.Proofs.Number.Word
