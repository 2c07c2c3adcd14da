import StackLang.Code.Basic
import StackLang.Log
import StackLang.Text.Offset

namespace StackLang

/-!
# Assembler

The assembler lays down instructions one after the other. It can take back the
instruction it emitted last, and give an earlier one another operand. It knows
its last two instructions, so that one of them can be taken back and the other
is then known to be the last; what it did is kept in a journal.
-/

/-- An instruction that was laid down: its operation and where it begins. -/
structure Emitted where
  opcode : Opcode
  offset : Nat
  deriving DecidableEq

/-- One thing that the assembler did. -/
inductive Edit where
  /-- An instruction was added at the end of the code, which was this offset. -/
  | emit (offset : Nat) (instr : Instr)
  /-- The last instruction was taken back. -/
  | retract (emitted : Emitted)
  /-- The instruction at an offset was to get another operand. -/
  | patch (offset operand : Nat)
  deriving DecidableEq

/-- The log line of an edit. -/
def Edit.logLine : Edit → String
  | .emit offset instr =>
      LogLevel.trace.line
        ("emit " ++ renderOffset offset ++ " " ++ instr.renderBracketed)
  | .retract emitted =>
      LogLevel.trace.line
        ("retract " ++ renderOffset emitted.offset ++ " " ++
          emitted.opcode.name)
  | .patch offset operand =>
      LogLevel.trace.line
        ("patch " ++ renderOffset offset ++ " -> " ++ toString operand)

/-- Code in the making. -/
structure Assembler where
  code : Code
  /-- The instruction at the end of the code. -/
  last : Option Emitted
  /-- The instruction before the last one, unless the last one is there because
  its successor was taken back. -/
  previous : Option Emitted
  /-- What was done, oldest first. -/
  journal : Array Edit

namespace Assembler

/-- The assembler before its first instruction. -/
def empty : Assembler where
  code := .empty
  last := none
  previous := none
  journal := #[]

/-- The offset at which the next instruction will begin. -/
def offset (assembler : Assembler) : Nat :=
  assembler.code.size

/-- Add an instruction whose bytes are given. -/
def emit
    (assembler : Assembler) (instr : Instr) (encoded : List UInt8) :
    Assembler :=
  let offset := assembler.offset
  { code := assembler.code.append encoded
    last := some ⟨instr.opcode, offset⟩
    previous := assembler.last
    journal := assembler.journal.push (.emit offset instr) }

/-- Whether the last instruction is of the given operation. -/
def endsWith (assembler : Assembler) (opcode : Opcode) : Bool :=
  match assembler.last with
  | some last =>
      last.opcode == opcode
  | none =>
      false

/-- Take back the last instruction. Nothing happens where none is known. -/
def retract (assembler : Assembler) : Assembler :=
  match assembler.last with
  | some last =>
      { code := assembler.code.truncate last.offset
        last := assembler.previous
        previous := none
        journal := assembler.journal.push (.retract last) }
  | none =>
      assembler

/-- Note that an instruction is about to get another operand. -/
def notePatch (assembler : Assembler) (offset operand : Nat) : Assembler :=
  { assembler with
    journal := assembler.journal.push (.patch offset operand) }

/-- Write bytes over those at an offset. -/
def overwrite
    (assembler : Assembler) (offset : Nat) (encoded : List UInt8) :
    Assembler :=
  { assembler with code := assembler.code.overwrite offset encoded }

end Assembler

end StackLang
