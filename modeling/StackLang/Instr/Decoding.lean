import StackLang.Instr.Basic

namespace StackLang

/-!
# Decoded instructions

Operands are read from the bytes that follow the operation byte. Each is the
big-endian number in as many bytes as the layout gives it, kept in a 64-bit
word, so that an operand wider than eight bytes keeps its eight lowest ones.
-/

/-- Why no instruction can be read. -/
inductive DecodeError where
  /-- The byte denotes no operation. -/
  | undefinedOpcode (byte : UInt8)
  /-- The bytes end before all operands of the named operation. -/
  | truncated (name : String) (needed available : Nat)
  deriving DecidableEq

/-- The wording of a decoding error. -/
def DecodeError.message : DecodeError → String
  | .undefinedOpcode byte =>
      s!"opcode {byte.toNat} undefined"
  | .truncated name needed available =>
      s!"{name} needs {needed} operand bytes, only {available} available"

/-- The number of values of a 64-bit word. -/
def wordBound : Nat :=
  UInt64.size

/-- The word that bytes denote, most significant byte first. -/
def bigEndianWord (bytes : List UInt8) : Nat :=
  bytes.foldl (fun word byte => (word * 256 + byte.toNat) % wordBound) 0

/-- Read one word per width, the first at `start` and each next one where its
predecessor ended. The bytes must reach as far as the widths do. -/
def readWords (bytes : Array UInt8) : (start : Nat) → List Nat → List Nat
  | _, [] =>
      []
  | start, width :: widths =>
      bigEndianWord (bytes.extract start (start + width)).toList ::
        readWords bytes (start + width) widths

/-- Read the operands of a layout from `start` on. The answer holds the
operands and the offset after the last of them. -/
def Layout.decodeOperands
    (layout : Layout) (bytes : Array UInt8) (start : Nat) :
    Except DecodeError (List Nat × Nat) :=
  let available := bytes.size - start
  if available < layout.operandSize then
    .error (.truncated layout.name layout.operandSize available)
  else
    .ok (readWords bytes start layout.operandWidths, start + layout.operandSize)

/-- The operation that a byte denotes, or the complaint that there is none. -/
def Opcode.ofByte (byte : UInt8) : Except DecodeError Opcode :=
  match Opcode.ofByte? byte with
  | some opcode =>
      .ok opcode
  | none =>
      .error (.undefinedOpcode byte)

/-- The two-byte big-endian number at `start`, if both bytes are there. -/
def readUInt16? (bytes : Array UInt8) (start : Nat) : Option UInt16 := do
  let high ← bytes[start]?
  let low ← bytes[start + 1]?
  return high.toUInt16 <<< 8 ||| low.toUInt16

end StackLang
