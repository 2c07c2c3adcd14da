import Mathlib.Data.List.Induction
import Mathlib.Data.Nat.Digits.Defs
import StackLang.Proofs.Instr.Decoding

namespace StackLang

/-!
# Positions of operands

Operands are read at positions that the widths alone fix: each behind all bytes
of the operands before it. What is read there is the number that the bytes
denote in base 256, as far as it fits a 64-bit word.
-/

/-- The number that bytes denote in base 256, most significant byte first. -/
def bigEndianValue (bytes : List UInt8) : Nat :=
  Nat.ofDigits 256 (bytes.map UInt8.toNat).reverse

/-- A byte at the end has the lowest place. -/
theorem bigEndianValue_concat (bytes : List UInt8) (byte : UInt8) :
    bigEndianValue (bytes ++ [byte]) =
      bigEndianValue bytes * 256 + byte.toNat := by
  simp [bigEndianValue, Nat.ofDigits_cons, Nat.mul_comm, Nat.add_comm]

/-- A byte at the end is read into the lowest place of the word. -/
theorem bigEndianWord_concat (bytes : List UInt8) (byte : UInt8) :
    bigEndianWord (bytes ++ [byte]) =
      (bigEndianWord bytes * 256 + byte.toNat) % 2 ^ 64 := by
  rw [bigEndianWord, List.foldl_append]
  rfl

/-- A word that is read is what fits a word of the number that its bytes
denote. -/
theorem bigEndianWord_eq_mod (bytes : List UInt8) :
    bigEndianWord bytes = bigEndianValue bytes % 2 ^ 64 := by
  induction bytes using List.reverseRecOn with
  | nil =>
      rfl
  | append_singleton bytes byte inductionHypothesis =>
      rw [bigEndianWord_concat, inductionHypothesis, bigEndianValue_concat,
        Nat.add_mod, Nat.mod_mul_mod, ← Nat.add_mod]

/-- A byte that is shifted into a register takes its lowest place, and drives
out the highest one. -/
theorem shiftLeft_or_byte (bits number : Nat) (byte : UInt8) :
    number <<< 8 % 2 ^ (bits + 8) ||| byte.toNat =
      (number * 256 + byte.toNat) % 2 ^ (bits + 8) := by
  have small : byte.toNat < 2 ^ 8 := byte.toNat_lt
  have driven :
      number <<< 8 % 2 ^ (bits + 8) = (number % 2 ^ bits) <<< 8 := by
    rw [Nat.shiftLeft_eq, Nat.shiftLeft_eq, Nat.pow_add,
      Nat.mul_mod_mul_right]
  have lowest : (number * 256 + byte.toNat) % 256 = byte.toNat := by omega
  have others : (number * 256 + byte.toNat) / 256 = number := by omega
  calc
    number <<< 8 % 2 ^ (bits + 8) ||| byte.toNat
        = (number % 2 ^ bits) <<< 8 + byte.toNat := by
          rw [driven, Nat.shiftLeft_add_eq_or_of_lt small]
    _ = byte.toNat + 256 * (number % 2 ^ bits) := by
          rw [Nat.shiftLeft_eq, Nat.add_comm, Nat.mul_comm]
    _ = (number * 256 + byte.toNat) % (256 * 2 ^ bits) := by
          rw [Nat.mod_mul, lowest, others]
    _ = (number * 256 + byte.toNat) % 2 ^ (bits + 8) := by
          rw [Nat.mul_comm 256, Nat.pow_add]

/-- A 64-bit register after bytes were shifted into it, one after the other. -/
def shiftedWord (bytes : List UInt8) : UInt64 :=
  bytes.foldl (fun word byte => word <<< 8 ||| byte.toUInt64) 0

/-- Such a register holds the word that the bytes are read as. -/
theorem toNat_shiftedWord (bytes : List UInt8) :
    (shiftedWord bytes).toNat = bigEndianWord bytes := by
  induction bytes using List.reverseRecOn with
  | nil =>
      rfl
  | append_singleton bytes byte inductionHypothesis =>
      rw [shiftedWord, List.foldl_append, ← shiftedWord, List.foldl_cons,
        List.foldl_nil, UInt64.toNat_or, UInt64.toNat_shiftLeft,
        inductionHypothesis, bigEndianWord_concat, UInt8.toNat_toUInt64]
      exact shiftLeft_or_byte 56 _ byte

section Words

variable {bytes others : Array UInt8} {start otherStart : Nat}
variable {widths : List Nat}

/-- A word is read behind the bytes of those before it. -/
theorem getElem?_readWords
    {leading trailing : List Nat} {width : Nat}
    (split : widths = leading ++ width :: trailing) :
    (readWords bytes start widths)[leading.length]? =
      some
        (bigEndianWord
          (((bytes.toList.drop start).drop leading.sum).take width)) := by
  subst split
  induction leading generalizing start with
  | nil =>
      rw [List.nil_append, readWords, Array.toList_extract,
        List.extract_eq_take_drop, Nat.add_sub_cancel_left]
      rfl
  | cons first rest inductionHypothesis =>
      rw [List.cons_append, readWords, List.length_cons,
        List.getElem?_cons_succ, inductionHypothesis, List.sum_cons,
        List.drop_drop, List.drop_drop, Nat.add_assoc]

/-- Words are read from as many bytes as the widths add up to. -/
theorem readWords_congr
    (same :
      (bytes.toList.drop start).take widths.sum =
        (others.toList.drop otherStart).take widths.sum) :
    readWords bytes start widths = readWords others otherStart widths := by
  induction widths generalizing start otherStart with
  | nil =>
      rfl
  | cons width rest inductionHypothesis =>
      rw [List.sum_cons] at same
      have sameHead := congrArg (List.take width) same
      have sameTail := congrArg (List.drop width) same
      rw [List.take_take, List.take_take, Nat.min_eq_left (by omega)]
        at sameHead
      rw [List.drop_take, List.drop_take, Nat.add_sub_cancel_left,
        List.drop_drop, List.drop_drop] at sameTail
      rw [readWords, readWords, inductionHypothesis sameTail,
        Array.toList_extract, Array.toList_extract,
        List.extract_eq_take_drop, List.extract_eq_take_drop,
        Nat.add_sub_cancel_left, Nat.add_sub_cancel_left, sameHead]

/-- Two bytes that are read as a number are a word of two bytes. -/
theorem exists_readUInt16?
    (twoBytes : 2 ≤ (bytes.toList.drop start).length) :
    ∃ number,
      readUInt16? bytes start = some number ∧
        readWords bytes start [2] = [number.toNat] := by
  obtain ⟨high, low, rest, placed⟩ :
      ∃ high low rest, bytes.toList.drop start = high :: low :: rest := by
    match bytes.toList.drop start, twoBytes with
    | high :: low :: rest, _ =>
        exact ⟨high, low, rest, rfl⟩
  have present (index : Nat) :
      bytes[start + index]? = (high :: low :: rest)[index]? := by
    rw [← placed, List.getElem?_drop, Array.getElem?_toList]
  have highPresent : bytes[start]? = some high := present 0
  have lowPresent : bytes[start + 1]? = some low := present 1
  have twoPlaced : bytes.toList.drop start = [high, low] ++ rest := placed
  have found : (bytes.extract start (start + 2)).toList = [high, low] :=
    toList_extract_of_drop twoPlaced
  have value : bigEndianValue [high, low] = high.toNat * 256 + low.toNat :=
    bigEndianValue_concat [high] low
  have fits : high.toNat * 256 + low.toNat < 2 ^ (8 + 8) := by
    have highFits := high.toNat_lt
    have lowFits := low.toNat_lt
    omega
  refine ⟨high.toUInt16 <<< 8 ||| low.toUInt16, ?_, ?_⟩
  · simp [readUInt16?, highPresent, lowPresent]
  · have number :
        (high.toUInt16 <<< 8 ||| low.toUInt16).toNat =
          high.toNat * 256 + low.toNat := by
      rw [UInt16.toNat_or, UInt16.toNat_shiftLeft]
      exact (shiftLeft_or_byte 8 _ low).trans (Nat.mod_eq_of_lt fits)
    rw [readWords, found, bigEndianWord_eq_mod, value, number,
      Nat.mod_eq_of_lt (Nat.lt_trans fits (by decide))]
    rfl

end Words

/-- Operands that are read from the bytes at hand, each at its position.

The bytes of an operand follow those of the operands before it, and are as many
as its width says. The operand is what a 64-bit register holds after they were
shifted into it, which is the number that they denote, reduced to 64 bits. -/
structure ReadAtPositions
    (widths : List Nat) (available : List UInt8) (operands : List Nat) :
    Prop where
  count : operands.length = widths.length
  operand :
    ∀ leading width trailing,
      widths = leading ++ width :: trailing →
        ∃ earlier own later,
          available = earlier ++ own ++ later ∧
            earlier.length = leading.sum ∧
            own.length = width ∧
            operands[leading.length]? = some (shiftedWord own).toNat ∧
            (shiftedWord own).toNat = bigEndianValue own % 2 ^ 64

/-- Words that are read from enough bytes are read at their positions. -/
theorem readAtPositions_readWords
    {bytes : Array UInt8} {start : Nat} {widths : List Nat}
    (enough : widths.sum ≤ (bytes.toList.drop start).length) :
    ReadAtPositions widths (bytes.toList.drop start)
      (readWords bytes start widths) := by
  refine ⟨length_readWords bytes start widths, ?_⟩
  intro leading width trailing split
  have inside :
      leading.sum + width ≤ (bytes.toList.drop start).length := by
    rw [split, List.sum_append, List.sum_cons] at enough
    omega
  refine
    ⟨(bytes.toList.drop start).take leading.sum,
      ((bytes.toList.drop start).drop leading.sum).take width,
      ((bytes.toList.drop start).drop leading.sum).drop width,
      ?_, ?_, ?_, ?_, ?_⟩
  · rw [List.append_assoc, List.take_append_drop, List.take_append_drop]
  · exact List.length_take_of_le (Nat.le_of_add_right_le inside)
  · rw [List.length_take, List.length_drop]
    omega
  · rw [getElem?_readWords split, toNat_shiftedWord]
  · rw [toNat_shiftedWord, bigEndianWord_eq_mod]

/-- Operands are decoded from the bytes from an offset on, if these are as many
as the widths add up to. -/
theorem Layout.decodeOperands_eq
    (layout : Layout) (bytes : Array UInt8) (start : Nat) :
    layout.decodeOperands bytes start =
      if (bytes.toList.drop start).length < layout.operandWidths.sum then
        .error
          (.truncated layout.name layout.operandWidths.sum
            (bytes.toList.drop start).length)
      else
        .ok
          (readWords bytes start layout.operandWidths,
            start + layout.operandWidths.sum) := by
  rw [List.length_drop, Array.length_toList]
  rfl

/-- Decoding operands is reading at positions, for any widths. Operands are
refused exactly when there are fewer bytes than the widths add up to. Otherwise
each of them is read at its position, as many bytes are consumed as the widths
add up to, and bytes behind these make no difference. A single operand of two
bytes is the number that these two bytes are read as. -/
theorem operands_read_at_positions
    (layout : Layout) (bytes : Array UInt8) (start : Nat) :
    let available := bytes.toList.drop start
    let needed := layout.operandWidths.sum
    (layout.decodeOperands bytes start =
          .error (.truncated layout.name needed available.length) ↔
        available.length < needed) ∧
      (needed ≤ available.length →
        ∃ operands,
          layout.decodeOperands bytes start =
              .ok (operands, start + needed) ∧
            ReadAtPositions layout.operandWidths available operands ∧
            (∀ (others : Array UInt8) (otherStart : Nat),
              (others.toList.drop otherStart).take needed =
                  available.take needed →
                layout.decodeOperands others otherStart =
                  .ok (operands, otherStart + needed)) ∧
            (layout.operandWidths = [2] →
              ∃ number,
                readUInt16? bytes start = some number ∧
                  operands = [number.toNat])) := by
  intro available needed
  have decoded := layout.decodeOperands_eq bytes start
  refine ⟨⟨?onlyShort, fun short => decoded.trans (if_pos short)⟩, ?enough⟩
  case onlyShort =>
    intro refused
    refine Decidable.byContradiction fun enough => ?_
    rw [decoded, if_neg enough] at refused
    cases refused
  case enough =>
    intro enough
    refine
      ⟨_, decoded.trans (if_neg (Nat.not_lt_of_le enough)),
        readAtPositions_readWords enough, ?unaffected, ?number⟩
    case unaffected =>
      intro others otherStart same
      have otherEnough :
          needed ≤ (others.toList.drop otherStart).length := by
        have lengths := congrArg List.length same
        rw [List.length_take, List.length_take] at lengths
        omega
      rw [layout.decodeOperands_eq,
        if_neg (Nat.not_lt_of_le otherEnough), readWords_congr same]
    case number =>
      intro wide
      have twoBytes : layout.operandWidths.sum ≤ available.length := enough
      rw [wide] at twoBytes ⊢
      exact exists_readUInt16? twoBytes

/-- The operand behind the byte of a jump, with an operation behind it. -/
theorem jump_read_at_position :
    Opcode.jump.layout.operandWidths = [2] ∧
      Opcode.jump.layout.decodeOperands #[14, 1, 2, 15] 1 =
        .ok ([258], 3) ∧
      Opcode.jump.layout.decodeOperands #[1, 2] 0 = .ok ([258], 2) := by
  obtain ⟨operands, decoded, _, unaffected, number⟩ :=
    (operands_read_at_positions Opcode.jump.layout #[14, 1, 2, 15] 1).2
      (by decide)
  obtain ⟨_, isNumber, rfl⟩ := number rfl
  cases isNumber
  exact ⟨rfl, decoded, unaffected #[1, 2] 0 rfl⟩

/-- An operand of no bytes is zero, and one of nine bytes loses the highest. -/
example :
    (Layout.mk "OpWide" [0, 9]).decodeOperands
        #[7, 0, 0, 0, 0, 0, 0, 1, 2, 3] 0 =
      .ok ([0, 258], 9) := by
  rfl

end StackLang
