import FlatMachine.Action
import FlatMachine.Code.Callback
import FlatMachine.Code.Dump
import FlatMachine.Code.Node
import FlatMachine.Code.Operand
import FlatMachine.Code.Program
import FlatMachine.Decimal.Shortest
import FlatMachine.Error
import FlatMachine.Json.Basic
import FlatMachine.Json.Reading
import FlatMachine.LittleEndian
import FlatMachine.Lowering.AssignOp
import FlatMachine.Lowering.Assignment
import FlatMachine.Lowering.FrameLayout
import FlatMachine.Machine.Basic
import FlatMachine.Machine.CallStack
import FlatMachine.Machine.Run
import FlatMachine.Memory.Arena
import FlatMachine.Memory.Object
import FlatMachine.Memory.Place
import FlatMachine.Native.Binary
import FlatMachine.Native.Commit
import FlatMachine.Native.Library
import FlatMachine.Native.Primitive
import FlatMachine.Native.Sequence
import FlatMachine.Native.Site
import FlatMachine.Native.Windows
import FlatMachine.Options
import FlatMachine.Options.Reading
import FlatMachine.Options.Writing
import FlatMachine.Proofs.Acceptance
import FlatMachine.Proofs.Allocation
import FlatMachine.Proofs.AnyComparison
import FlatMachine.Proofs.Arena
import FlatMachine.Proofs.Atomicity
import FlatMachine.Proofs.Binding
import FlatMachine.Proofs.ByReference
import FlatMachine.Proofs.CallStack
import FlatMachine.Proofs.CallTransfer
import FlatMachine.Proofs.Checking
import FlatMachine.Proofs.Codec
import FlatMachine.Proofs.Completion
import FlatMachine.Proofs.CompoundAssignment
import FlatMachine.Proofs.Confinement
import FlatMachine.Proofs.Containment
import FlatMachine.Proofs.DataSegment
import FlatMachine.Proofs.Declarations
import FlatMachine.Proofs.DeclaredSlots
import FlatMachine.Proofs.DeclaredType
import FlatMachine.Proofs.Delivery
import FlatMachine.Proofs.Draft
import FlatMachine.Proofs.ErrorLocations
import FlatMachine.Proofs.Execution
import FlatMachine.Proofs.FailingCallback
import FlatMachine.Proofs.FrameLayout
import FlatMachine.Proofs.FreshLiteral
import FlatMachine.Proofs.GenericOperators
import FlatMachine.Proofs.HeapSize
import FlatMachine.Proofs.HeapStore
import FlatMachine.Proofs.IntegerOperators
import FlatMachine.Proofs.Interchange
import FlatMachine.Proofs.Isolation
import FlatMachine.Proofs.LayoutCongruence
import FlatMachine.Proofs.Library
import FlatMachine.Proofs.LiteralAssignment
import FlatMachine.Proofs.LoweredDefinition
import FlatMachine.Proofs.LoweredNodes
import FlatMachine.Proofs.Moves
import FlatMachine.Proofs.MultiAssignment
import FlatMachine.Proofs.Neutrality
import FlatMachine.Proofs.PointerLiteral
import FlatMachine.Proofs.Postcondition
import FlatMachine.Proofs.QualifiedNames
import FlatMachine.Proofs.Registration
import FlatMachine.Proofs.Resizing
import FlatMachine.Proofs.Results
import FlatMachine.Proofs.SequenceOperators
import FlatMachine.Proofs.ShortDeclaration
import FlatMachine.Proofs.SingleValues
import FlatMachine.Proofs.SizeArithmetic
import FlatMachine.Proofs.Soundness
import FlatMachine.Proofs.StackStep
import FlatMachine.Proofs.StaleStack
import FlatMachine.Proofs.Statements
import FlatMachine.Proofs.StructLayout
import FlatMachine.Proofs.Termination
import FlatMachine.Proofs.Twins
import FlatMachine.Proofs.TypeNames
import FlatMachine.Proofs.UnlocatedErrors
import FlatMachine.Proofs.Unmentioned
import FlatMachine.Proofs.Variables
import FlatMachine.Proofs.Walks
import FlatMachine.Proofs.WindowEvents
import FlatMachine.Random
import FlatMachine.Size
import FlatMachine.StructTable
import FlatMachine.Text.Alphanumeric
import FlatMachine.Text.Blank
import FlatMachine.Text.Hexadecimal
import FlatMachine.Text.Printable
import FlatMachine.Text.Quoted
import FlatMachine.Text.Range
import FlatMachine.Text.Utf8
import FlatMachine.Ty.Basic
import FlatMachine.Ty.Reading
import FlatMachine.Value.Basic
import FlatMachine.Value.Codec
import FlatMachine.Value.Text
import FlatMachine.Window.Headless
import FlatMachine.Window.Registry
import FlatMachine.Word.Float
import FlatMachine.Word.Integer
