import EthBatch.Abi.Align
import EthBatch.Abi.Decode
import EthBatch.Abi.Encode
import EthBatch.Abi.Fault
import EthBatch.Abi.Interface
import EthBatch.Abi.Kind
import EthBatch.Abi.Lookup
import EthBatch.Abi.Schema
import EthBatch.Abi.TypeText
import EthBatch.Address
import EthBatch.Aggregate
import EthBatch.Block
import EthBatch.Bytes
import EthBatch.Call
import EthBatch.Chain
import EthBatch.Client
import EthBatch.Client.Chunk
import EthBatch.Client.Interleaving
import EthBatch.Client.Run
import EthBatch.Client.Schedule
import EthBatch.Error
import EthBatch.Evm.Builtin
import EthBatch.Evm.Disassembly
import EthBatch.Evm.Literal
import EthBatch.Evm.Machine
import EthBatch.Evm.Opcode
import EthBatch.Evm.Program
import EthBatch.Facade
import EthBatch.Failure
import EthBatch.Fault
import EthBatch.Json
import EthBatch.Keccak
import EthBatch.Log
import EthBatch.Log.Setup
import EthBatch.Node
import EthBatch.Node.Script
import EthBatch.Number.Numeral
import EthBatch.Number.Position
import EthBatch.Number.Shortest
import EthBatch.Plan
import EthBatch.Platform
import EthBatch.Reassembly
import EthBatch.Registry
import EthBatch.Revert
import EthBatch.Settings
import EthBatch.Settings.EnvFile
import EthBatch.Settings.Environment
import EthBatch.Settings.Fault
import EthBatch.Settings.Field
import EthBatch.Text.Blank
import EthBatch.Text.Digit
import EthBatch.Text.Hex
import EthBatch.Text.Printable
import EthBatch.Text.Quoted
import EthBatch.Value
import EthBatch.Value.Written
import EthBatch.Proofs.Abi.Layout
import EthBatch.Proofs.Address
import EthBatch.Proofs.Except
import EthBatch.Proofs.Abi.RoundTrip
import EthBatch.Proofs.Aggregate
import EthBatch.Proofs.Fault
import EthBatch.Proofs.Plan
import EthBatch.Proofs.Reassembly
import EthBatch.Proofs.Client.Request
import EthBatch.Proofs.Client.Fate
import EthBatch.Proofs.Client.Entries
import EthBatch.Proofs.Abi.Faults
import EthBatch.Proofs.Output
import EthBatch.Proofs.Client.Escape
import EthBatch.Proofs.Client.Batching
import EthBatch.Proofs.Evm.Assembly
import EthBatch.Proofs.Evm.Memory
import EthBatch.Proofs.Evm.Straight
import EthBatch.Proofs.Evm.Aggregator.Outcome
import EthBatch.Proofs.Abi.Overlong
import EthBatch.Proofs.Abi.Parameters
import EthBatch.Proofs.Abi.TypeName
import EthBatch.Proofs.Revert
import EthBatch.Proofs.Call
import EthBatch.Proofs.Client.Settling
import EthBatch.Proofs.Client.Styles
import EthBatch.Proofs.Client.Turn
import EthBatch.Proofs.Client.Course
import EthBatch.Proofs.Client.Progress
import EthBatch.Proofs.Client.Barrier
import EthBatch.Proofs.Client.Timing
import EthBatch.Proofs.Client.FirstFailure
import EthBatch.Proofs.Client.Turns
import EthBatch.Proofs.Client.Standstill
import EthBatch.Proofs.Client.Deadline
import EthBatch.Proofs.Evm.Wrapper
import EthBatch.Proofs.Client.Cancellation
import EthBatch.Proofs.Abi.Truncation
import EthBatch.Proofs.Aggregate.Truncation
import EthBatch.Proofs.Plan.Greedy
import EthBatch.Proofs.Client.Contents
import EthBatch.Proofs.Client.Destination
import EthBatch.Proofs.Abi.Inputs
import EthBatch.Proofs.Plan.Fewest
import EthBatch.Proofs.Abi.Lookup
import EthBatch.Proofs.Call.Making
import EthBatch.Proofs.Client.ChunkFailures
import EthBatch.Proofs.Abi.Grammar
import EthBatch.Proofs.Abi.Schema
import EthBatch.Proofs.Abi.Standard
import EthBatch.Proofs.Abi.Values
import EthBatch.Proofs.Call.Output
import EthBatch.Proofs.Evm.Consistency
import EthBatch.Proofs.Evm.Listing
import EthBatch.Proofs.Evm.Creation
import EthBatch.Proofs.Block
import EthBatch.Proofs.Client.BlockNames
import EthBatch.Proofs.Client.BlockFloor
import EthBatch.Proofs.Client.BlockTexts
import EthBatch.Proofs.Reassembly.Surplus
import EthBatch.Proofs.Number
import EthBatch.Proofs.Settings
import EthBatch.Proofs.Settings.Code
import EthBatch.Proofs.Client.Code
import EthBatch.Proofs.Settings.Whole
import EthBatch.Proofs.Settings.Environment
import EthBatch.Proofs.Chain
import EthBatch.Proofs.Registry
import EthBatch.Proofs.Client.OwnRegistry
import EthBatch.Proofs.Client.Spelling
import EthBatch.Proofs.Facade
import EthBatch.Proofs.Facade.Answers
import EthBatch.Proofs.Facade.Setups
import EthBatch.Proofs.Revert.Reason
import EthBatch.Proofs.Abi.Grammar.Sound
import EthBatch.Proofs.Abi.Grammar.Unique
import EthBatch.Proofs.Abi.Schema.Shape
