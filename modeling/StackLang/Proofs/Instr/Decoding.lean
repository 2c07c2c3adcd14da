import Mathlib.Algebra.Group.Nat.Defs
import StackLang.Proofs.Instr.Encoding

namespace StackLang

/-!
# Decoded instructions are written again

Any bytes are those of one number in their width, so operands that were read are
written as the bytes that they were read from. An instruction that is fetched can
be encoded, and stands in the code as it is encoded.
-/

/-- As many bytes hold as many numbers as there are ways to fill them. -/
theorem byteBound_eq_pow (width : Nat) : byteBound width = 256 ^ width := by
  induction width with
  | zero =>
      rfl
  | succ width inductionHypothesis =>
      rw [byteBound_succ, inductionHypothesis, Nat.pow_succ]

theorem byteBound_pos (width : Nat) : 0 < byteBound width := by
  rw [byteBound_eq_pow]
  exact Nat.pow_pos (by decide)

/-- What lies above the lowest bytes of a number is not written. -/
theorem bigEndianBytes_add_mul (high number width : Nat) :
    bigEndianBytes (high * byteBound width + number) width =
      bigEndianBytes number width := by
  induction width generalizing high with
  | zero =>
      rfl
  | succ width inductionHypothesis =>
      have shape :
          high * byteBound (width + 1) + number =
            high * 256 * byteBound width + number := by
        rw [byteBound_succ, Nat.mul_assoc, Nat.mul_comm 256]
      have leadingByte :
          ((high * 256 * byteBound width + number) /
              byteBound width).toUInt8 =
            (number / byteBound width).toUInt8 := by
        rw [Nat.add_comm, Nat.add_mul_div_right _ _ (byteBound_pos width)]
        exact UInt8.toNat_inj.mp (by simp)
      rw [shape, bigEndianBytes, bigEndianBytes, leadingByte,
        inductionHypothesis]

/-- Any bytes are those of a number that fits their width. -/
theorem exists_number_of_bytes (bytes : List UInt8) :
    ∃ number,
      number < byteBound bytes.length ∧
        bigEndianBytes number bytes.length = bytes := by
  induction bytes with
  | nil =>
      exact ⟨0, Nat.one_pos, rfl⟩
  | cons byte rest inductionHypothesis =>
      obtain ⟨number, fits, written⟩ := inductionHypothesis
      refine ⟨byte.toNat * byteBound rest.length + number, ?_, ?_⟩
      · have small : byte.toNat + 1 ≤ 256 := byte.toNat_lt
        calc
          byte.toNat * byteBound rest.length + number
              < byte.toNat * byteBound rest.length +
                  byteBound rest.length := Nat.add_lt_add_left fits _
          _ = (byte.toNat + 1) * byteBound rest.length :=
              (Nat.succ_mul _ _).symm
          _ ≤ 256 * byteBound rest.length := Nat.mul_le_mul_right _ small
          _ = byteBound (rest.length + 1) := Nat.mul_comm _ _
      · have leadingByte :
            ((byte.toNat * byteBound rest.length + number) /
                byteBound rest.length).toUInt8 = byte := by
          rw [Nat.add_comm,
            Nat.add_mul_div_right _ _ (byteBound_pos rest.length),
            Nat.div_eq_of_lt fits, Nat.zero_add]
          exact UInt8.toNat_inj.mp (by simp)
        rw [List.length_cons, bigEndianBytes, leadingByte,
          bigEndianBytes_add_mul, written]

/-- The word that bytes denote fits as many bytes, and is written as they are. -/
theorem bigEndianBytes_bigEndianWord
    {bytes : List UInt8} (short : bytes.length ≤ 8) :
    bigEndianWord bytes < byteBound bytes.length ∧
      bigEndianBytes (bigEndianWord bytes) bytes.length = bytes := by
  obtain ⟨number, fits, written⟩ := exists_number_of_bytes bytes
  have inWord : number < wordBound :=
    calc
      number < byteBound bytes.length := fits
      _ ≤ byteBound 8 := byteBound_le short
      _ = wordBound := by decide
  have read : bigEndianWord bytes = number := by
    rw [← written]
    exact bigEndianWord_bigEndianBytes fits inWord
  rw [read]
  exact ⟨fits, written⟩

/-- The byte that denotes an operation is the byte of the operation. -/
theorem Opcode.byte_of_ofByte?
    {byte : UInt8} {opcode : Opcode} (found : ofByte? byte = some opcode) :
    opcode.byte = byte := by
  have inOrder : ∀ index : Fin all.size, (all[index]).byte.toNat = index := by
    decide
  obtain ⟨inside, rfl⟩ := Array.getElem?_eq_some_iff.mp found
  exact UInt8.toNat_inj.mp (inOrder ⟨byte.toNat, inside⟩)

/-- As many operands are read as there are widths. -/
@[simp] theorem length_readWords
    (bytes : Array UInt8) (start : Nat) (widths : List Nat) :
    (readWords bytes start widths).length = widths.length := by
  induction widths generalizing start with
  | nil =>
      rfl
  | cons width widths inductionHypothesis =>
      simp [readWords, inductionHypothesis]

namespace Instr

/-- Operands that were read are written as the bytes that they were read
from. -/
theorem encodeOperands_readWords
    (opcode : Opcode) {bytes : Array UInt8} {start : Nat} {widths : List Nat}
    (narrow : ∀ width ∈ widths, width ≤ 8)
    (inside : start + widths.foldr (· + ·) 0 ≤ bytes.size) :
    encodeOperands opcode (readWords bytes start widths) widths =
      .ok
        ((bytes.toList.drop start).take (widths.foldr (· + ·) 0)) := by
  induction widths generalizing start with
  | nil =>
      rfl
  | cons width widths inductionHypothesis =>
      rw [List.foldr_cons] at inside
      have extracted :
          (bytes.extract start (start + width)).toList =
            (bytes.toList.drop start).take width := by
        rw [Array.toList_extract, List.extract_eq_take_drop,
          Nat.add_sub_cancel_left]
      have foundLength :
          ((bytes.toList.drop start).take width).length = width := by
        rw [List.length_take, List.length_drop, Array.length_toList]
        omega
      obtain ⟨fits, written⟩ :=
        bigEndianBytes_bigEndianWord
          (Nat.le_trans (Nat.le_of_eq foundLength)
            (narrow width List.mem_cons_self))
      rw [foundLength] at fits written
      have insideRest :
          start + width + widths.foldr (· + ·) 0 ≤ bytes.size := by
        rwa [Nat.add_assoc]
      have rest :=
        inductionHypothesis
          (fun other member => narrow other (List.mem_cons_of_mem _ member))
          insideRest
      rw [readWords, extracted, encodeOperands, if_pos fits, written, rest,
        List.foldr_cons, List.take_add, List.drop_drop]
      rfl

/-- Operands are written exactly when each of them fits its width. -/
theorem exists_encodeOperands_iff
    (opcode : Opcode) {operands widths : List Nat} :
    (∃ written, encodeOperands opcode operands widths = .ok written) ↔
      ∀ pair ∈ operands.zip widths, pair.1 < 256 ^ pair.2 := by
  induction operands generalizing widths with
  | nil =>
      simp [encodeOperands]
  | cons operand operands inductionHypothesis =>
      cases widths with
      | nil =>
          simp [encodeOperands]
      | cons width widths =>
          rw [encodeOperands, byteBound_eq_pow, List.zip_cons_cons,
            List.forall_mem_cons, ← inductionHypothesis]
          by_cases fits : operand < 256 ^ width
          · simp only [fits, if_true, true_and]
            cases encodeOperands opcode operands widths <;> simp [Except.map]
          · simp [fits]

/-- An instruction can be encoded exactly when it has as many operands as its
layout asks for, and each of them fits its width. -/
theorem encodable_iff {instr : Instr} :
    instr.Encodable ↔
      instr.operands.length = instr.opcode.operandWidths.length ∧
        ∀ pair ∈ instr.operands.zip instr.opcode.operandWidths,
          pair.1 < 256 ^ pair.2 := by
  rw [← exists_encodeOperands_iff instr.opcode]
  constructor
  case mp =>
    rintro ⟨encoded, accepted⟩
    obtain ⟨sameLength, written, operandsWritten, _⟩ :=
      encode_eq_ok_iff.mp accepted
    exact ⟨sameLength, written, operandsWritten⟩
  case mpr =>
    rintro ⟨sameLength, written, operandsWritten⟩
    exact ⟨_, encode_eq_ok_iff.mpr
      ⟨sameLength, written, operandsWritten, rfl⟩⟩

end Instr

namespace Code

/-- Nothing stands behind the end of the code. -/
theorem fetch_eq_past_iff {code : Code} {offset : Nat} :
    code.fetch offset = .past ↔ code.size ≤ offset := by
  constructor
  case mp =>
    intro past
    rw [fetch] at past
    split at past
    case h_1 absent =>
      exact Array.getElem?_eq_none_iff.mp absent
    case h_2 =>
      split at past
      case h_1 =>
        cases past
      case h_2 =>
        split at past <;> cases past
  case mpr =>
    intro outside
    rw [fetch, Array.getElem?_eq_none outside]

/-- A fetched instruction lies within the code: its operation is that of the
byte at the offset, and its operands are read behind it. -/
theorem shape_of_fetch
    {code : Code} {offset next : Nat} {instr : Instr}
    (fetched : code.fetch offset = .instr instr next) :
    code.bytes[offset]? = some instr.opcode.byte ∧
      offset + 1 + instr.opcode.layout.operandSize ≤ code.bytes.size ∧
      instr.operands =
        readWords code.bytes (offset + 1) instr.opcode.operandWidths := by
  have inside := lt_size_of_fetch fetched
  simp only [fetch, Layout.decodeOperands, Opcode.ofByte] at fetched
  split at fetched
  case h_1 =>
    cases fetched
  case h_2 byte present =>
    cases known : Opcode.ofByte? byte with
    | none =>
        rw [known] at fetched
        cases fetched
    | some opcode =>
        rw [known] at fetched
        by_cases short :
            code.bytes.size - (offset + 1) < opcode.layout.operandSize
        · simp only [if_pos short] at fetched
          cases fetched
        · simp only [if_neg short] at fetched
          cases fetched
          refine ⟨?_, ?_, rfl⟩
          · rw [Opcode.byte_of_ofByte? known]
            exact present
          · rw [size] at inside
            change offset + 1 + opcode.layout.operandSize ≤ code.bytes.size
            omega

/-- An instruction that is fetched can be encoded, and stands in the code as it
is encoded. -/
theorem drop_of_fetch
    {code : Code} {offset next : Nat} {instr : Instr}
    (fetched : code.fetch offset = .instr instr next) :
    instr.Encodable ∧
      code.bytes.toList.drop offset =
        instr.bytes ++ code.bytes.toList.drop next := by
  obtain ⟨firstByte, inside, operandsRead⟩ := shape_of_fetch fetched
  have operandsWritten :=
    Instr.encodeOperands_readWords instr.opcode
      (fun _ => Opcode.le_eight_of_mem_operandWidths) inside
  rw [← operandsRead] at operandsWritten
  have sameLength :
      instr.operands.length = instr.opcode.operandWidths.length := by
    rw [operandsRead, length_readWords]
  have accepted :=
    Instr.encode_eq_ok_iff.mpr ⟨sameLength, _, operandsWritten, rfl⟩
  refine ⟨⟨_, accepted⟩, ?_⟩
  obtain ⟨present, isByte⟩ := List.getElem?_eq_some_iff.mp
    (Array.getElem?_toList.trans firstByte)
  rw [next_of_fetch fetched, Instr.bytes_of_encode accepted,
    List.drop_eq_getElem_cons present, isByte, Instr.size, ← Nat.add_assoc,
    ← List.drop_drop (j := offset + 1), List.cons_append]
  exact congrArg _ (List.take_append_drop _ _).symm

end Code

end StackLang
