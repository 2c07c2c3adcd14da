import StackLang.Instr.Decoding
import StackLang.Instr.Encoding

namespace StackLang

/-!
# Code

Code is a flat sequence of bytes, addressed by byte offset. It grows at the end,
can be cut back to an offset, and allows the operand of an instruction to be
written anew in place.
-/

/-- Instruction bytes. -/
structure Code where
  bytes : Array UInt8
  deriving DecidableEq

/-- What stands at an offset of the code. -/
inductive Fetch where
  /-- The offset is at or after the end of the code. -/
  | past
  /-- The bytes from the offset on do not begin with an instruction. -/
  | undecodable (error : DecodeError)
  /-- An instruction, and the offset of the byte after it. -/
  | instr (instr : Instr) (next : Nat)
  deriving DecidableEq

/-- Steps on code. A failure keeps the code that it was met in. -/
abbrev CodeM :=
  EStateM EncodeError Code

namespace Code

/-- Code without any byte. -/
def empty : Code :=
  ⟨#[]⟩

/-- The length of the code, which is also the offset of the next append. -/
def size (code : Code) : Nat :=
  code.bytes.size

/-- There is no byte in the code. -/
def isEmpty (code : Code) : Bool :=
  code.bytes.isEmpty

/-- Add encoded bytes at the end. -/
def append (code : Code) (encoded : List UInt8) : Code where
  bytes := code.bytes ++ encoded

/-- Drop every byte at or after the offset. -/
def truncate (code : Code) (offset : Nat) : Code where
  bytes := code.bytes.shrink offset

/-- Appended bytes add to the length. -/
@[simp] theorem size_append (code : Code) (encoded : List UInt8) :
    (code.append encoded).size = code.size + encoded.length := by
  simp [append, size, ← Array.length_toList]

/-- Cut code ends at the offset, unless it ended before. -/
@[simp] theorem size_truncate (code : Code) (offset : Nat) :
    (code.truncate offset).size = min offset code.size := by
  simp [truncate, size]

/-- Write bytes over the ones from the offset on, without moving any. -/
def overwrite (code : Code) (offset : Nat) : List UInt8 → Code
  | [] =>
      code
  | byte :: rest =>
      overwrite ⟨code.bytes.setIfInBounds offset byte⟩ (offset + 1) rest

/-- Bytes that are overwritten keep their number. -/
@[simp] theorem size_overwrite
    (code : Code) (offset : Nat) (encoded : List UInt8) :
    (code.overwrite offset encoded).size = code.size := by
  induction encoded generalizing code offset with
  | nil =>
      rfl
  | cons byte rest inductionHypothesis =>
      rw [overwrite, inductionHypothesis]
      simp [size]

/--
The bytes that give the instruction at an offset another operand.

The offset must hold the byte of an operation with operands, the operand must
fit, and the instruction must lie within the code.
-/
def patchedBytes
    (code : Code) (offset operand : Nat) :
    Except EncodeError (List UInt8) :=
  match code.bytes[offset]?.bind Opcode.ofByte? with
  | none =>
      .error (.badPatch offset)
  | some opcode =>
      if opcode.operandWidths.isEmpty then
        .error (.badPatch offset)
      else
        match (Instr.mk opcode [operand]).encode with
        | .error error =>
            .error error
        | .ok encoded =>
            if code.size < offset + encoded.length then
              .error (.badPatch offset)
            else
              .ok encoded

/-- Give the instruction at an offset another operand. -/
def patchOperand (offset operand : Nat) : CodeM PUnit := do
  match (← get).patchedBytes offset operand with
  | .error error =>
      throw error
  | .ok encoded =>
      modify (·.overwrite offset encoded)

/-- Read what stands at an offset. -/
def fetch (code : Code) (offset : Nat) : Fetch :=
  match code.bytes[offset]? with
  | none =>
      .past
  | some byte =>
      match Opcode.ofByte byte with
      | .error error =>
          .undecodable error
      | .ok opcode =>
          match opcode.layout.decodeOperands code.bytes (offset + 1) with
          | .error error =>
              .undecodable error
          | .ok (operands, next) =>
              .instr ⟨opcode, operands⟩ next

/-- A fetched instruction begins within the code. -/
theorem lt_size_of_fetch
    {code : Code} {offset next : Nat} {instr : Instr}
    (fetched : code.fetch offset = .instr instr next) :
    offset < code.size := by
  unfold fetch at fetched
  split at fetched
  · cases fetched
  · rename_i present
    exact (Array.getElem?_eq_some_iff.mp present).1

/-- The instruction after a fetched one begins where the fetched one ends. -/
theorem next_of_fetch
    {code : Code} {offset next : Nat} {instr : Instr}
    (fetched : code.fetch offset = .instr instr next) :
    next = offset + instr.size := by
  simp only [fetch, Layout.decodeOperands] at fetched
  split at fetched
  · cases fetched
  · split at fetched
    · cases fetched
    · split at fetched
      · cases fetched
      · rename_i decoded
        split at decoded
        · cases decoded
        · cases decoded
          cases fetched
          simp only [Instr.size]
          omega

/-- A fetched instruction occupies at least the byte of its operation. -/
theorem lt_next_of_fetch
    {code : Code} {offset next : Nat} {instr : Instr}
    (fetched : code.fetch offset = .instr instr next) :
    offset < next := by
  rw [next_of_fetch fetched, Instr.size]
  omega

end Code

end StackLang
