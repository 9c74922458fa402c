import StackMachine.Assembly.Link
import StackMachine.CommandLine.Execute
import StackMachine.HashTable.Rolling
import StackMachine.Instruction.Standard
import StackMachine.Listing
import StackMachine.Machine.Trace
import StackMachine.Main
import StackMachine.Proofs.HashTable.Search
import StackMachine.Proofs.HashTable.Map
import StackMachine.Proofs.HashTable.Rolling
import StackMachine.Proofs.Assembly.Operand
import StackMachine.Proofs.Assembly.Session
import StackMachine.Proofs.Instruction.Registry
import StackMachine.Proofs.Assembly.Act
import StackMachine.Proofs.Assembly.Progress
import StackMachine.Proofs.Assembly.Rejection
import StackMachine.Proofs.Assembly.Parts
import StackMachine.Proofs.Assembly.Agreement
import StackMachine.Proofs.Assembly.Layout
import StackMachine.Proofs.Assembly.RegisterBound
import StackMachine.Proofs.HashTable.Call
import StackMachine.Proofs.Machine.Layout
import StackMachine.Proofs.Machine.Effects
import StackMachine.Proofs.Machine.Fetch
import StackMachine.Proofs.Machine.StackState
import StackMachine.Proofs.Machine.Refinement
import StackMachine.Proofs.Instruction.Listing
import StackMachine.Proofs.Instruction.RoundTrip
import StackMachine.Proofs.Assembly.Image
import StackMachine.Proofs.Machine.ControlFlow
import StackMachine.Proofs.Machine.Run
import StackMachine.Proofs.Machine.MemorySize
import StackMachine.Proofs.Machine.Strict
import StackMachine.Proofs.Machine.Reachable
import StackMachine.Proofs.Assembly.Lexing
import StackMachine.Proofs.Assembly.Effect
import StackMachine.Proofs.Assembly.Acceptance
import StackMachine.Proofs.Assembly.Concatenation
import StackMachine.Proofs.Assembly.InPlace
import StackMachine.Proofs.Assembly.LabelUse
import StackMachine.Proofs.Assembly.Warnings
import StackMachine.Proofs.Assembly.Report
import StackMachine.Proofs.Assembly.Reassembly
import StackMachine.Proofs.Assembly.Places
import StackMachine.Proofs.Assembly.RegisterCount
import StackMachine.Proofs.Assembly.Sealing
import StackMachine.Proofs.Assembly.Tidying
import StackMachine.Proofs.Instruction.Registration
import StackMachine.Proofs.Machine.Reload
import StackMachine.Proofs.Text.Runs
import StackMachine.Proofs.Assembly.Segments
import StackMachine.Proofs.Assembly.Partition
import StackMachine.Proofs.Assembly.Lexemes
import StackMachine.Proofs.Text.Decoding
import StackMachine.Proofs.Assembly.Paths
import StackMachine.Proofs.Text.Words
import StackMachine.Proofs.Machine.Reading
import StackMachine.Proofs.Machine.Faults
import StackMachine.Proofs.Machine.Foresight
import StackMachine.Proofs.Machine.Calls
import StackMachine.Proofs.Assembly.Literals
import StackMachine.Proofs.Instruction.Coverage
import StackMachine.Proofs.Instruction.RawColumn
import StackMachine.Proofs.CommandLine.Disassembly
import StackMachine.Proofs.Assembly.Pointing
import StackMachine.Proofs.Machine.Streaming
import StackMachine.Proofs.Assembly.Commas
import StackMachine.Proofs.Machine.Writing
import StackMachine.Proofs.HashTable.Growth
import StackMachine.Proofs.Binary32.Writing
import StackMachine.Proofs.HashTable.Slots
import StackMachine.Proofs.Assembly.Requests
