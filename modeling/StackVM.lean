import StackVM.Operator
import StackVM.Opcode
import StackVM.Double.Basic
import StackVM.Double.Arith
import StackVM.Double.Shortest
import StackVM.Double.Text
import StackVM.Text.Quoted
import StackVM.Text.Blank
import StackVM.Text.Align
import StackVM.Text.Numeral
import StackVM.Text.Unseen
import StackVM.Text.Escaped
import StackVM.Range
import StackVM.Exception.Class
import StackVM.Builtin.Name
import StackVM.Code
import StackVM.Instruction
import StackVM.Listing
import StackVM.Packed.Basic
import StackVM.Packed.Code
import StackVM.Assembler
import StackVM.Value.Basic
import StackVM.Value.HashKey
import StackVM.Exception.Cause
import StackVM.Limits
import StackVM.Heap.Store
import StackVM.Heap.Dict
import StackVM.Heap.Namespace
import StackVM.Heap.Basic
import StackVM.Value.Equality
import StackVM.Value.Order
import StackVM.Value.Text
import StackVM.Value.Size
import StackVM.Iteration
import StackVM.Subscript
import StackVM.Word
import StackVM.Arithmetic
import StackVM.Comparison
import StackVM.Call.Args
import StackVM.Call.Signature
import StackVM.Builtin.Convert
import StackVM.Builtin.Aggregate
import StackVM.Builtin.Print
import StackVM.Builtin.Call
import StackVM.Exception.Raised
import StackVM.Machine.Frame
import StackVM.Machine.CallStack
import StackVM.Machine.Unwind
import StackVM.Machine.Log
import StackVM.Machine.State
import StackVM.Machine.Call
import StackVM.Machine.Execute
import StackVM.Machine.Run
import StackVM.Host.Literal
import StackVM.Host.Session
import StackVM.Host.Summary
import StackVM.Proofs.Decoding
import StackVM.Proofs.Outcome
import StackVM.Proofs.TextOffsets
import StackVM.Proofs.Intact
import StackVM.Proofs.Evaluation
import StackVM.Proofs.Operands
import StackVM.Proofs.Handlers
import StackVM.Proofs.Unwinding
import StackVM.Proofs.Effect
import StackVM.Proofs.Moments
import StackVM.Proofs.Transition
import StackVM.Proofs.Registers
import StackVM.Proofs.CallNesting
import StackVM.Proofs.FinallyBlocks
import StackVM.Proofs.Bounds
import StackVM.Proofs.Faults
import StackVM.Proofs.Propagation
import StackVM.Proofs.Assembly
import StackVM.Proofs.RoundTrip
import StackVM.Proofs.Packing
import StackVM.Proofs.HashKeys
import StackVM.Proofs.Resumption
import StackVM.Proofs.UnwindingForm
import StackVM.Proofs.Nesting
import StackVM.Proofs.Matching
import StackVM.Proofs.EqualityLevels
import StackVM.Proofs.Equality
import StackVM.Proofs.Ordering
import StackVM.Proofs.GrowingHeaps
import StackVM.Proofs.StackEffects
import StackVM.Proofs.CellScope
import StackVM.Proofs.ScopedEvaluation
import StackVM.Proofs.ScopedFrames
import StackVM.Proofs.SealedRuns
import StackVM.Proofs.Closures
import StackVM.Proofs.WordArithmetic
import StackVM.Proofs.IntegerArithmetic
import StackVM.Proofs.ArgumentBinding
import StackVM.Proofs.Tables
import StackVM.Proofs.LoadedConstants
import StackVM.Proofs.Labels
import StackVM.Proofs.RangeMembers
import StackVM.Proofs.Traversal
import StackVM.Proofs.Sequences
import StackVM.Proofs.Aggregates
import StackVM.Proofs.DictHistory
import StackVM.Proofs.InplaceOperators
import StackVM.Proofs.Parameters
import StackVM.Proofs.StackSize
import StackVM.Proofs.Repetition
import StackVM.Proofs.DecoderGrammar
import StackVM.Proofs.StreamTiling
import StackVM.Proofs.WrittenForms
import StackVM.Proofs.NestedListings
import StackVM.Proofs.Numerals
import StackVM.Proofs.DepthCauses
import StackVM.Proofs.DepthFaults
import StackVM.Proofs.RaisedOrigins
import StackVM.Proofs.CallDepth
import StackVM.Proofs.Extremes
import StackVM.Proofs.CodeAtHand
