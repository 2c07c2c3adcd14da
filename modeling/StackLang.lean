import StackLang.Code.Listing
import StackLang.Compilation.Journal
import StackLang.Machine.Memory
import StackLang.Machine.Trace
import StackLang.Program.Equality
import StackLang.Program.Printer
import StackLang.Session
import StackLang.Proofs.Code.Sequence
import StackLang.Proofs.Code.Split
import StackLang.Proofs.Instr.Decoding
import StackLang.Proofs.Code.Format
import StackLang.Proofs.Code.Text
import StackLang.Proofs.Code.Disassembly
import StackLang.Proofs.Compilation.Plan
import StackLang.Proofs.Compilation.Rejection
import StackLang.Proofs.Code.Patching
import StackLang.Proofs.Compilation.Assembly
import StackLang.Proofs.Compilation.Arm
import StackLang.Proofs.Compilation.Steps
import StackLang.Proofs.Compilation.Generation
import StackLang.Proofs.Compilation.Accepted
import StackLang.Proofs.Machine.Operations
import StackLang.Proofs.Machine.Execution
import StackLang.Proofs.Machine.Depth
import StackLang.Proofs.Compilation.Balance
import StackLang.Proofs.Machine.StackSafety
import StackLang.Proofs.Compilation.Slots
import StackLang.Proofs.Compilation.Faults
import StackLang.Proofs.Compilation.Additions
import StackLang.Proofs.Compilation.Accounts
import StackLang.Proofs.Compilation.Jumps
import StackLang.Proofs.Code.WellFormed
import StackLang.Proofs.Program.Evaluation
import StackLang.Proofs.Machine.Simulation
import StackLang.Proofs.Machine.Correctness
import StackLang.Proofs.Machine.Relocation
import StackLang.Proofs.Machine.Units
import StackLang.Proofs.Compilation.Acceptance
import StackLang.Proofs.Compilation.Calls
import StackLang.Proofs.Machine.Forward
import StackLang.Proofs.Machine.Writes
import StackLang.Proofs.Compilation.Variables
import StackLang.Proofs.Machine.Bindings
import StackLang.Proofs.Machine.TrailingDefinition
import StackLang.Proofs.Machine.Rerun
import StackLang.Proofs.Machine.Memory
import StackLang.Proofs.Machine.MemoryRuns
import StackLang.Proofs.Machine.Safety
import StackLang.Proofs.Machine.Capacity
import StackLang.Proofs.Machine.Failures
import StackLang.Proofs.Compilation.StackNeed
import StackLang.Proofs.Machine.StackNeed
import StackLang.Proofs.Machine.MemoryHistory
import StackLang.Proofs.Machine.Recall
import StackLang.Proofs.Machine.StraightRuns
import StackLang.Proofs.Compilation.Renaming
import StackLang.Proofs.Machine.Arithmetic
import StackLang.Proofs.Instr.Positions
import StackLang.Proofs.Compilation.Definitions
import StackLang.Proofs.Compilation.Edits
import StackLang.Proofs.Compilation.Journaling
import StackLang.Proofs.Compilation.Undo
