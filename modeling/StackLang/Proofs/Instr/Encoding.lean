import StackLang.Code.Basic

namespace StackLang

/-!
# Encoded instructions are read back

The bytes of an instruction that can be encoded are as many as its layout says,
and fetching at the offset where they stand gives the instruction again,
whatever bytes stand before and after them.
-/

theorem byteBound_succ (width : Nat) :
    byteBound (width + 1) = byteBound width * 256 :=
  rfl

/-- More bytes hold all the values that fewer hold. -/
theorem byteBound_le {width wider : Nat} (le : width ≤ wider) :
    byteBound width ≤ byteBound wider := by
  induction le with
  | refl =>
      exact Nat.le_refl _
  | step _ inductionHypothesis =>
      rw [byteBound_succ]
      omega

/-- A number is written in exactly its width. -/
@[simp] theorem length_bigEndianBytes (number width : Nat) :
    (bigEndianBytes number width).length = width := by
  induction width with
  | zero =>
      rfl
  | succ width inductionHypothesis =>
      simp [bigEndianBytes, inductionHypothesis]

/--
Reading on over the bytes of a number shifts the word read so far and adds the
number, both reduced to what the bytes and the word can hold.
-/
theorem foldl_bigEndianBytes (number width word : Nat) :
    (bigEndianBytes number width).foldl
        (fun word byte => (word * 256 + byte.toNat) % wordBound)
        (word % wordBound) =
      (word * byteBound width + number % byteBound width) % wordBound := by
  induction width generalizing word with
  | zero =>
      simp [bigEndianBytes, byteBound, Nat.mod_one]
  | succ width inductionHypothesis =>
      have byteValue :
          (number / byteBound width).toUInt8.toNat =
            number / byteBound width % 256 := by
        simp
      have split :
          number % byteBound (width + 1) =
            number % byteBound width +
              byteBound width * (number / byteBound width % 256) := by
        rw [byteBound_succ, Nat.mod_mul]
      rw [bigEndianBytes, List.foldl_cons, byteValue]
      have shifted :
          (word % wordBound * 256 + number / byteBound width % 256) % wordBound =
            (word * 256 + number / byteBound width % 256) % wordBound := by
        rw [Nat.add_mod, Nat.mul_mod, Nat.mod_mod, ← Nat.mul_mod,
          ← Nat.add_mod]
      rw [shifted, inductionHypothesis, split, byteBound_succ]
      congr 1
      rw [Nat.add_mul, Nat.mul_assoc, Nat.mul_comm 256,
        Nat.mul_comm (number / byteBound width % 256), Nat.add_assoc,
        Nat.add_comm (number % byteBound width)]

/-- A number that fits its width and the word is read as it was written. -/
theorem bigEndianWord_bigEndianBytes
    {number width : Nat}
    (fits : number < byteBound width)
    (inWord : number < wordBound) :
    bigEndianWord (bigEndianBytes number width) = number := by
  have read := foldl_bigEndianBytes number width 0
  rw [Nat.zero_mod, Nat.zero_mul, Nat.zero_add, Nat.mod_eq_of_lt fits,
    Nat.mod_eq_of_lt inWord] at read
  exact read

/-- Every operand of the instruction set fits a 64-bit word. -/
theorem Opcode.le_eight_of_mem_operandWidths
    {opcode : Opcode} {width : Nat}
    (member : width ∈ opcode.operandWidths) :
    width ≤ 8 := by
  cases opcode <;> simp_all [Opcode.operandWidths]

/-- Instructions have one operand of two bytes, or none. -/
theorem Opcode.operandWidths_cases (opcode : Opcode) :
    opcode.operandWidths = [] ∨ opcode.operandWidths = [2] := by
  cases opcode <;> decide

/-- Bytes found at an offset are extracted as they are. -/
theorem toList_extract_of_drop
    {bytes : Array UInt8} {start : Nat} {found rest : List UInt8}
    (placed : bytes.toList.drop start = found ++ rest) :
    (bytes.extract start (start + found.length)).toList = found := by
  rw [Array.toList_extract, List.extract_eq_take_drop,
    Nat.add_sub_cancel_left, placed, List.take_left']
  rfl

namespace Instr

/-- The instruction has as many operands as it needs, and each fits. -/
def Encodable (instr : Instr) : Prop :=
  ∃ encoded, instr.encode = .ok encoded

/-- The bytes of an instruction, or none if it cannot be encoded. -/
def bytes (instr : Instr) : List UInt8 :=
  match instr.encode with
  | .ok encoded =>
      encoded
  | .error _ =>
      []

/-- Encoded bytes are those of the instruction. -/
theorem bytes_of_encode
    {instr : Instr} {encoded : List UInt8}
    (accepted : instr.encode = .ok encoded) :
    instr.bytes = encoded := by
  rw [bytes, accepted]

/-- Encoding the operands writes as many bytes as their widths add up to. -/
theorem length_encodeOperands
    {opcode : Opcode} {operands widths : List Nat} {encoded : List UInt8}
    (sameLength : operands.length = widths.length)
    (accepted : encodeOperands opcode operands widths = .ok encoded) :
    encoded.length = widths.foldr (· + ·) 0 := by
  induction operands generalizing widths encoded with
  | nil =>
      cases widths with
      | nil =>
          cases accepted
          rfl
      | cons width widths =>
          cases sameLength
  | cons operand operands inductionHypothesis =>
      cases widths with
      | nil =>
          cases sameLength
      | cons width widths =>
          rw [encodeOperands] at accepted
          split at accepted
          · cases tail : encodeOperands opcode operands widths with
            | error error =>
                rw [tail] at accepted
                cases accepted
            | ok written =>
                rw [tail] at accepted
                cases accepted
                have tailLength :=
                  inductionHypothesis (Nat.succ.inj sameLength) tail
                simp [tailLength]
          · cases accepted

/-- Reading in the same widths gives the operands that were written. -/
theorem readWords_of_encodeOperands
    {opcode : Opcode} {operands widths : List Nat}
    {encoded rest : List UInt8} {bytes : Array UInt8} {start : Nat}
    (sameLength : operands.length = widths.length)
    (narrow : ∀ width ∈ widths, width ≤ 8)
    (accepted : encodeOperands opcode operands widths = .ok encoded)
    (placed : bytes.toList.drop start = encoded ++ rest) :
    readWords bytes start widths = operands := by
  induction operands generalizing widths encoded start with
  | nil =>
      cases widths with
      | nil =>
          rfl
      | cons width widths =>
          cases sameLength
  | cons operand operands inductionHypothesis =>
      cases widths with
      | nil =>
          cases sameLength
      | cons width widths =>
          rw [encodeOperands] at accepted
          split at accepted
          case isFalse tooLarge =>
            cases accepted
          case isTrue fits =>
            cases tail : encodeOperands opcode operands widths with
            | error error =>
                rw [tail] at accepted
                cases accepted
            | ok written =>
                rw [tail] at accepted
                cases accepted
                have inWord : operand < wordBound := by
                  have widthLe : width ≤ 8 := narrow width (by simp)
                  calc
                    operand < byteBound width := fits
                    _ ≤ byteBound 8 := byteBound_le widthLe
                    _ = wordBound := by decide
                rw [List.append_assoc] at placed
                have head :
                    (bytes.extract start (start + width)).toList =
                      bigEndianBytes operand width := by
                  have found := toList_extract_of_drop placed
                  rwa [length_bigEndianBytes] at found
                have tailPlaced :
                    bytes.toList.drop (start + width) = written ++ rest := by
                  rw [← List.drop_drop, placed, List.drop_left']
                  simp
                rw [readWords, head,
                  bigEndianWord_bigEndianBytes fits inWord,
                  inductionHypothesis (Nat.succ.inj sameLength)
                    (fun width member =>
                      narrow width (List.mem_cons_of_mem _ member))
                    tail tailPlaced]

/-- What it takes to encode an instruction, and what its bytes then are. -/
theorem encode_eq_ok_iff {instr : Instr} {encoded : List UInt8} :
    instr.encode = .ok encoded ↔
      instr.operands.length = instr.opcode.operandWidths.length ∧
        ∃ written,
          encodeOperands instr.opcode instr.operands
              instr.opcode.operandWidths = .ok written ∧
            encoded = instr.opcode.byte :: written := by
  by_cases sameLength :
      instr.operands.length = instr.opcode.operandWidths.length
  case neg =>
    simp [encode, sameLength]
  case pos =>
    simp only [encode, if_pos sameLength]
    cases written :
        encodeOperands instr.opcode instr.operands
          instr.opcode.operandWidths with
    | error error =>
        simp [Except.map]
    | ok bytes =>
        simp [Except.map, sameLength, eq_comm]

/-- The bytes of an instruction fill its size. -/
theorem length_bytes {instr : Instr} (encodable : instr.Encodable) :
    instr.bytes.length = instr.size := by
  obtain ⟨encoded, accepted⟩ := encodable
  rw [bytes_of_encode accepted]
  obtain ⟨sameLength, written, operandsWritten, rfl⟩ :=
    encode_eq_ok_iff.mp accepted
  rw [List.length_cons, length_encodeOperands sameLength operandsWritten,
    size, Nat.add_comm]
  rfl

/-- Every instruction occupies at least one byte. -/
theorem size_pos (instr : Instr) : 0 < instr.size := by
  unfold size
  omega

end Instr

namespace Code

/-- Where the bytes of an instruction stand, the instruction is fetched. -/
theorem fetch_of_drop
    {code : Code} {offset : Nat} {instr : Instr} {rest : List UInt8}
    (encodable : instr.Encodable)
    (placed : code.bytes.toList.drop offset = instr.bytes ++ rest) :
    code.fetch offset = .instr instr (offset + instr.size) := by
  obtain ⟨encoded, accepted⟩ := encodable
  rw [Instr.bytes_of_encode accepted] at placed
  obtain ⟨sameLength, written, operandsWritten, rfl⟩ :=
    Instr.encode_eq_ok_iff.mp accepted
  have firstByte : code.bytes[offset]? = some instr.opcode.byte := by
    have head : (code.bytes.toList.drop offset)[0]? =
        some instr.opcode.byte := by
      rw [placed]
      rfl
    rwa [List.getElem?_drop, Nat.add_zero, Array.getElem?_toList] at head
  have operandsPlaced :
      code.bytes.toList.drop (offset + 1) = written ++ rest := by
    rw [← List.drop_drop, placed]
    rfl
  have writtenLength :
      written.length = instr.opcode.layout.operandSize :=
    Instr.length_encodeOperands sameLength operandsWritten
  have available :
      ¬ code.bytes.size - (offset + 1) <
        instr.opcode.layout.operandSize := by
    have lengths := congrArg List.length operandsPlaced
    rw [List.length_drop, List.length_append, Array.length_toList,
      writtenLength] at lengths
    omega
  have operandsRead :
      readWords code.bytes (offset + 1) instr.opcode.operandWidths =
        instr.operands :=
    Instr.readWords_of_encodeOperands sameLength
      (fun _ => Opcode.le_eight_of_mem_operandWidths)
      operandsWritten operandsPlaced
  have decoded :
      instr.opcode.layout.decodeOperands code.bytes (offset + 1) =
        .ok (instr.operands, offset + instr.size) := by
    rw [Layout.decodeOperands, if_neg available]
    simp only [Opcode.layout] at operandsRead ⊢
    rw [operandsRead, Instr.size, Opcode.layout, Nat.add_assoc]
  simp [fetch, firstByte, Opcode.ofByte, decoded]

end Code

end StackLang
