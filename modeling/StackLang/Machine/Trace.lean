import StackLang.Log
import StackLang.Machine.Execution
import StackLang.Text.Offset

namespace StackLang

/-!
# Traces

A trace lists the instructions that a run comes to, in the order of execution,
each with the depth of the stack before it. An instruction that fails is listed;
bytes that are no instruction are not.
-/

/-- An instruction that a run has come to. -/
structure Visit where
  offset : Nat
  instr : Instr
  /-- The number of values on the stack before the instruction. -/
  depth : Nat
  deriving DecidableEq

/-- The log line of a visited instruction. -/
def Visit.logLine (visit : Visit) : String :=
  LogLevel.trace.line
    (renderOffset visit.offset ++ " " ++ visit.instr.renderBracketed ++
      " sp=" ++ toString visit.depth)

namespace Bytecode

/-- What a run visits at an offset. -/
def visit? (bytecode : Bytecode) (offset : Nat) (machine : Machine) :
    Option Visit :=
  match bytecode.code.fetch offset with
  | .instr instr _ =>
      some ⟨offset, instr, machine.depth⟩
  | _ =>
      none

/-- Continue a trace at an offset for at most `fuel` steps, after the visits
made so far. -/
def traceFrom (bytecode : Bytecode) :
    (fuel offset : Nat) → Machine → Array Visit → Array Visit
  | 0, _, _, visits =>
      visits
  | fuel + 1, offset, machine, visits =>
      let visits :=
        match bytecode.visit? offset machine with
        | some visit =>
            visits.push visit
        | none =>
            visits
      match bytecode.step offset machine with
      | .running offset machine =>
          bytecode.traceFrom fuel offset machine visits
      | _ =>
          visits

/-- The visits of a run of at most `fuel` steps from the start of the code. -/
def trace (bytecode : Bytecode) (fuel : Nat) (machine : Machine) :
    Array Visit :=
  bytecode.traceFrom fuel 0 machine #[]

/-- The log of a run of at most `fuel` steps: an announcement, the visits, and,
if the run comes to its end, a closing line. -/
def runLog (bytecode : Bytecode) (fuel : Nat) (machine : Machine) :
    Array String :=
  let opening := LogLevel.debug.line
    s!"running {bytecode.code.size} bytes with {bytecode.constants.size} constant(s)"
  let visits := (bytecode.trace fuel machine).map Visit.logLine
  match bytecode.run fuel machine with
  | .finished machine =>
      (#[opening] ++ visits).push
        (LogLevel.debug.line s!"finished with sp={machine.depth}")
  | _ =>
      #[opening] ++ visits

end Bytecode

end StackLang
