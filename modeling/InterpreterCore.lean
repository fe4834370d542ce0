import InterpreterCore.Activation.Storage
import InterpreterCore.Binary.Bits
import InterpreterCore.Call
import InterpreterCore.Declaration.Table.Lookup
import InterpreterCore.Display.Frames
import InterpreterCore.Proofs.Execution.Occupancy
import InterpreterCore.Proofs.Execution.Reference
import InterpreterCore.Proofs.Execution.StaticLink
import InterpreterCore.Value.Operators
import InterpreterCore.Proofs.Declaration.Lineage
import InterpreterCore.Proofs.Execution.Constant
import InterpreterCore.Proofs.Binary.Widening
import InterpreterCore.Proofs.Value.Arithmetic
import InterpreterCore.Proofs.Value.Contract
import InterpreterCore.Proofs.Execution.Isolation
import InterpreterCore.Proofs.Program.Refusal
import InterpreterCore.Proofs.Declaration.Hiding
import InterpreterCore.Proofs.Activation.Table
import InterpreterCore.Proofs.Text.Utf8
import InterpreterCore.Proofs.Value.Order
import InterpreterCore.Proofs.Declaration.Growth
import InterpreterCore.Proofs.Declaration.Scope
import InterpreterCore.Proofs.Instance.Heap
import InterpreterCore.Proofs.Activation.Handles
import InterpreterCore.Proofs.Program.Instances
import InterpreterCore.Proofs.Declaration.Cycle
import InterpreterCore.Proofs.Execution.Resolution
import InterpreterCore.Proofs.Value.FloatText
import InterpreterCore.Proofs.Value.Integers
import InterpreterCore.Proofs.Value.WholePart
import InterpreterCore.Proofs.Value.Division
import InterpreterCore.Proofs.Value.MixedOrder
import InterpreterCore.Proofs.Program.Arguments
import InterpreterCore.Proofs.Value.IntegerText
import InterpreterCore.Proofs.Execution.CurrentScope
import InterpreterCore.Proofs.Execution.Functions
import InterpreterCore.Proofs.Value.Equality
import InterpreterCore.Proofs.Declaration.Preorder
