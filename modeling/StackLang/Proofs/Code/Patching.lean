import StackLang.Compilation.Basic
import StackLang.Proofs.Code.Format
import StackLang.Proofs.Effects
import StackLang.Proofs.Instr.Decoding

namespace StackLang

/-!
# Patching code

A patch that is accepted writes the two bytes of one operand, and a patch that
is refused writes nothing. Directed at an instruction with an operand, it
replaces that operand and leaves every other instruction where it stood.

Whether there is such an instruction at an offset is judged from the bytes that
follow the offset, not from where the instructions of the code begin. A patch
directed elsewhere is therefore refused, unless it is directed into an operand
that itself reads as the beginning of an instruction with an operand.
-/

namespace Instr

/-- A two-byte operand is written if it fits, and otherwise refused. -/
theorem encode_wide
    {opcode : Opcode} (wide : opcode.operandWidths = [2]) (operand : Nat) :
    (Instr.mk opcode [operand]).encode =
      if operand ≤ maxOperand then
        .ok (opcode.byte :: bigEndianBytes operand 2)
      else
        .error (.operandOutOfRange opcode operand 2) := by
  have bound : operand < byteBound 2 ↔ operand ≤ maxOperand :=
    Nat.lt_succ_iff
  by_cases fits : operand ≤ maxOperand
  · have small : operand < byteBound 2 := bound.mpr fits
    simp only [encode, wide, encodeOperands, if_pos small, if_pos fits]
    rfl
  · have tooLarge : ¬ operand < byteBound 2 := fun small =>
      fits (bound.mp small)
    simp only [encode, wide, encodeOperands, if_neg tooLarge, if_neg fits]
    rfl

end Instr

namespace Code

variable {code after : Code} {offset operand : Nat} {opcode : Opcode}

/-- Bytes are written over as many others, and nothing else changes. -/
theorem toList_overwrite
    {leading replaced trailing encoded : List UInt8}
    (shape : code.bytes.toList = leading ++ (replaced ++ trailing))
    (sameLength : encoded.length = replaced.length) :
    (code.overwrite leading.length encoded).bytes.toList =
      leading ++ (encoded ++ trailing) := by
  induction encoded generalizing code leading replaced with
  | nil =>
      cases replaced with
      | nil =>
          exact shape
      | cons old others =>
          cases sameLength
  | cons byte rest inductionHypothesis =>
      cases replaced with
      | nil =>
          cases sameLength
      | cons old others =>
          have written :
              (code.bytes.setIfInBounds leading.length byte).toList =
                (leading ++ [byte]) ++ (others ++ trailing) := by
            rw [Array.toList_setIfInBounds, shape]
            simp
          have overwritten :
              (overwrite ⟨code.bytes.setIfInBounds leading.length byte⟩
                  (leading ++ [byte]).length rest).bytes.toList =
                (leading ++ [byte]) ++ (rest ++ trailing) :=
            inductionHypothesis written (Nat.succ.inj sameLength)
          rw [List.length_append] at overwritten
          rw [overwrite]
          simpa using overwritten

/-- Bytes that are not written over stay. -/
theorem getElem?_overwrite_of_outside
    {encoded : List UInt8} {place : Nat}
    (outside : place < offset ∨ offset + encoded.length ≤ place) :
    (code.overwrite offset encoded).bytes[place]? = code.bytes[place]? := by
  induction encoded generalizing code offset with
  | nil =>
      rfl
  | cons byte rest inductionHypothesis =>
      rw [List.length_cons] at outside
      rw [overwrite, inductionHypothesis (by omega),
        Array.getElem?_setIfInBounds_ne (by omega)]

/-- A byte that is there already need not be written. -/
theorem overwrite_cons_of_present
    {byte : UInt8} (rest : List UInt8)
    (present : code.bytes[offset]? = some byte) :
    code.overwrite offset (byte :: rest) =
      code.overwrite (offset + 1) rest := by
  obtain ⟨inside, rfl⟩ := Array.getElem?_eq_some_iff.mp present
  rw [overwrite]
  simp [Array.setIfInBounds, inside]

/-- An instruction that is written over one of its size is fetched in its
place. -/
theorem fetch_overwrite
    {old new : Instr} {next : Nat}
    (fetched : code.fetch offset = .instr old next)
    (encodable : new.Encodable) (sameSize : new.size = old.size) :
    (code.overwrite offset new.bytes).fetch offset = .instr new next := by
  obtain ⟨oldEncodable, placed⟩ := drop_of_fetch fetched
  have leadingLength : (code.bytes.toList.take offset).length = offset := by
    have inside := lt_size_of_fetch fetched
    rw [size] at inside
    rw [List.length_take, Array.length_toList]
    omega
  have shape :
      code.bytes.toList =
        code.bytes.toList.take offset ++
          (old.bytes ++ code.bytes.toList.drop next) := by
    rw [← placed, List.take_append_drop]
  have sameLength : new.bytes.length = old.bytes.length := by
    rw [Instr.length_bytes encodable, Instr.length_bytes oldEncodable,
      sameSize]
  have overwritten := toList_overwrite shape sameLength
  rw [leadingLength] at overwritten
  rw [next_of_fetch fetched, ← sameSize]
  apply fetch_of_drop encodable
  rw [overwritten, List.drop_left' leadingLength]

/-- Two codes are the same but for the two bytes behind an offset. -/
structure SameButOperand (before after : Code) (offset : Nat) : Prop where
  size : after.size = before.size
  bytes :
    ∀ place,
      place ≠ offset + 1 → place ≠ offset + 2 →
        after.bytes[place]? = before.bytes[place]?

/-- The bytes from an offset on begin with an instruction that has an
operand. -/
def Patchable (code : Code) (offset : Nat) : Prop :=
  ∃ opcode old next, code.fetch offset = .instr ⟨opcode, [old]⟩ next

/-- Where the byte of an operation with an operand stands, and two more bytes,
there is something to patch. -/
theorem patchable_of_present
    (found : code.bytes[offset]?.bind Opcode.ofByte? = some opcode)
    (wide : opcode.operandWidths = [2])
    (inside : offset + 3 ≤ code.size) :
    code.Patchable offset := by
  obtain ⟨byte, present, known⟩ := Option.bind_eq_some_iff.mp found
  have available :
      ¬ code.bytes.size - (offset + 1) < opcode.layout.operandSize := by
    have operandSize : opcode.layout.operandSize = 2 := by
      simp [Layout.operandSize, Opcode.layout, wide]
    rw [size] at inside
    rw [operandSize]
    omega
  simp only [Patchable, fetch, present, Opcode.ofByte, known,
    Layout.decodeOperands, if_neg available]
  simp [Opcode.layout, wide, readWords]

/-- Where there is nothing to patch, a patch is refused; as a bad one, unless
its operand does not fit anyway. -/
theorem patchedBytes_of_not_patchable
    (operand : Nat) (misses : ¬ code.Patchable offset) :
    ∃ error,
      code.patchedBytes offset operand = .error error ∧
        (operand ≤ maxOperand → error = .badPatch offset) := by
  rw [patchedBytes]
  cases found : code.bytes[offset]?.bind Opcode.ofByte? with
  | none =>
      exact ⟨_, rfl, fun _ => rfl⟩
  | some opcode =>
      rcases opcode.operandWidths_cases with bare | wide
      case inl =>
        simp [bare]
      case inr =>
        have encoded := Instr.encode_wide wide operand
        by_cases fits : operand ≤ maxOperand
        · have short : code.size < offset + 3 :=
            Nat.lt_of_not_le fun inside =>
              misses (patchable_of_present found wide inside)
          rw [if_pos fits] at encoded
          simp [wide, encoded, short]
        · rw [if_neg fits] at encoded
          simp [wide, encoded, fits]

/-- A patch writes the bytes that `patchedBytes` gives, and leaves the code when
there are none. -/
theorem patchOperand_eq (code : Code) (offset operand : Nat) :
    patchOperand offset operand code =
      match code.patchedBytes offset operand with
      | .error error =>
          .error error code
      | .ok encoded =>
          .ok ⟨⟩ (code.overwrite offset encoded) := by
  rw [patchOperand, bind_get]
  cases code.patchedBytes offset operand <;> rfl

/-- A patch that is refused leaves the code. -/
theorem eq_of_patchOperand_error
    {error : EncodeError}
    (refused : patchOperand offset operand code = .error error after) :
    after = code := by
  rw [patchOperand_eq] at refused
  split at refused <;> cases refused
  rfl

/-- Where there is nothing to patch, a patch is not accepted. -/
theorem patchable_of_patchOperand_ok
    (accepted : patchOperand offset operand code = .ok ⟨⟩ after) :
    code.Patchable offset := by
  apply Classical.byContradiction
  intro misses
  obtain ⟨error, refused, _⟩ := patchedBytes_of_not_patchable operand misses
  rw [patchOperand_eq, refused] at accepted
  cases accepted

/-- Where there is nothing to patch, a patch with an operand that fits is
refused as a bad one. -/
theorem patchOperand_of_not_patchable
    (misses : ¬ code.Patchable offset) (fits : operand ≤ maxOperand) :
    patchOperand offset operand code = .error (.badPatch offset) code := by
  obtain ⟨error, refused, isBadPatch⟩ :=
    patchedBytes_of_not_patchable operand misses
  rw [patchOperand_eq, refused, isBadPatch fits]

section Fetched

variable {old next : Nat}
variable (fetched : code.fetch offset = .instr ⟨opcode, [old]⟩ next)

include fetched

/-- The operand of a fetched instruction takes two bytes. -/
theorem operandWidths_of_fetch : opcode.operandWidths = [2] := by
  obtain ⟨_, _, operandsRead⟩ := shape_of_fetch fetched
  rcases opcode.operandWidths_cases with bare | wide
  case inl =>
    rw [bare] at operandsRead
    cases operandsRead
  case inr =>
    exact wide

/-- With another operand that fits, a fetched instruction can be encoded. -/
theorem encode_of_fetch (fits : operand ≤ maxOperand) :
    (Instr.mk opcode [operand]).encode =
      .ok (opcode.byte :: bigEndianBytes operand 2) := by
  rw [Instr.encode_wide (operandWidths_of_fetch fetched), if_pos fits]

/-- A fetched instruction with an operand is three bytes long. -/
theorem next_of_fetch_operand : next = offset + 3 := by
  rw [next_of_fetch fetched, Instr.size, Layout.operandSize, Opcode.layout,
    operandWidths_of_fetch fetched]
  rfl

/-- Where an instruction with an operand is fetched, patching is up to the new
operand alone. -/
theorem patchedBytes_of_fetch (operand : Nat) :
    code.patchedBytes offset operand =
      (Instr.mk opcode [operand]).encode := by
  obtain ⟨firstByte, inside, _⟩ := shape_of_fetch fetched
  have found : code.bytes[offset]?.bind Opcode.ofByte? = some opcode := by
    simp [firstByte]
  rw [patchedBytes, found]
  simp only [operandWidths_of_fetch fetched, List.isEmpty_cons,
    Bool.false_eq_true, if_false]
  cases accepted : (Instr.mk opcode [operand]).encode with
  | error error =>
      rfl
  | ok encoded =>
      have sameSize : encoded.length = (Instr.mk opcode [old]).size :=
        Instr.bytes_of_encode accepted ▸
          Instr.length_bytes ⟨encoded, accepted⟩
      have within : ¬ code.size < offset + encoded.length := by
        rw [sameSize, Instr.size, size]
        omega
      simp only [if_neg within]

/-- An instruction with an operand is patched exactly when the new operand
fits, and then its bytes are written anew. -/
theorem patchOperand_of_fetch (operand : Nat) :
    patchOperand offset operand code =
      if operand ≤ maxOperand then
        .ok ⟨⟩ (code.overwrite offset (Instr.mk opcode [operand]).bytes)
      else
        .error (.operandOutOfRange opcode operand 2) code := by
  have encoded := Instr.encode_wide (operandWidths_of_fetch fetched) operand
  rw [patchOperand_eq, patchedBytes_of_fetch fetched, Instr.bytes]
  by_cases fits : operand ≤ maxOperand
  · rw [if_pos fits] at encoded
    simp only [encoded, if_pos fits]
  · rw [if_neg fits] at encoded
    simp only [encoded, if_neg fits]

/-- A patch of an instruction with an operand puts the instruction with the new
operand in its place, and changes no other byte. -/
theorem exists_patched (fits : operand ≤ maxOperand) :
    ∃ after,
      patchOperand offset operand code = .ok ⟨⟩ after ∧
        after.fetch offset = .instr ⟨opcode, [operand]⟩ next ∧
          code.SameButOperand after offset := by
  have written := encode_of_fetch fetched fits
  refine ⟨_, (patchOperand_of_fetch fetched operand).trans (if_pos fits),
    fetch_overwrite fetched ⟨_, written⟩ rfl, size_overwrite _ _ _, ?_⟩
  intro place notHigh notLow
  rw [Instr.bytes_of_encode written,
    overwrite_cons_of_present _ (shape_of_fetch fetched).1]
  apply getElem?_overwrite_of_outside
  rw [length_bigEndianBytes]
  omega

end Fetched

/-- A patch that is accepted changes no other bytes than those of an operand. -/
theorem sameButOperand_of_patchOperand_ok
    (accepted : patchOperand offset operand code = .ok ⟨⟩ after) :
    code.SameButOperand after offset := by
  obtain ⟨opcode, old, next, fetched⟩ :=
    patchable_of_patchOperand_ok accepted
  by_cases fits : operand ≤ maxOperand
  case pos =>
    obtain ⟨patched, isPatched, _, same⟩ := exists_patched fetched fits
    rw [accepted] at isPatched
    cases isPatched
    exact same
  case neg =>
    rw [patchOperand_of_fetch fetched, if_neg fits] at accepted
    cases accepted

namespace Consists

variable {leading trailing : List Instr} {old new : Nat} {encoded : List UInt8}

/-- The instruction behind some others is fetched where these end. -/
theorem fetch_behind
    {instr : Instr}
    (consists : code.Consists (leading ++ instr :: trailing)) :
    code.fetch (codeSize leading) =
      .instr instr (codeSize leading + instr.size) := by
  have holds := consists.holds.right.fetch
  rwa [Nat.zero_add] at holds

/-- An instruction with an operand, where it stands in the code, is patched
exactly when it can be encoded with the new operand. -/
theorem patchedBytes_eq
    (consists : code.Consists (leading ++ ⟨opcode, [old]⟩ :: trailing)) :
    code.patchedBytes (codeSize leading) new =
      (Instr.mk opcode [new]).encode :=
  patchedBytes_of_fetch consists.fetch_behind new

/-- A patched operand changes the one instruction that it belongs to. -/
theorem overwrite
    (consists : code.Consists (leading ++ ⟨opcode, [old]⟩ :: trailing))
    (accepted : (Instr.mk opcode [new]).encode = .ok encoded) :
    (code.overwrite (codeSize leading) encoded).Consists
      (leading ++ ⟨opcode, [new]⟩ :: trailing) := by
  have leadingLength : (encodeAll leading).length = codeSize leading :=
    length_encodeAll fun instr member =>
      consists.encodable instr (List.mem_append_left _ member)
  have oldEncodable : (Instr.mk opcode [old]).Encodable :=
    consists.encodable _ (by simp)
  have newEncodable : (Instr.mk opcode [new]).Encodable :=
    ⟨encoded, accepted⟩
  have newBytes := Instr.bytes_of_encode accepted
  refine ⟨?_, ?_⟩
  · intro instr member
    rcases List.mem_append.mp member with inLeading | atOrBehind
    · exact consists.encodable instr (by simp [inLeading])
    · rcases List.mem_cons.mp atOrBehind with isNew | inTrailing
      · exact isNew ▸ newEncodable
      · exact consists.encodable instr (by simp [inTrailing])
  · have sameLength :
        encoded.length = (Instr.mk opcode [old]).bytes.length := by
      rw [← newBytes, Instr.length_bytes newEncodable,
        Instr.length_bytes oldEncodable]
      rfl
    have shape :
        code.bytes.toList =
          encodeAll leading ++
            ((Instr.mk opcode [old]).bytes ++ encodeAll trailing) := by
      rw [consists.bytes, encodeAll_append, encodeAll_cons]
    rw [← leadingLength, toList_overwrite shape sameLength, encodeAll_append,
      encodeAll_cons, newBytes]

/-- In code that consists of instructions, a patch replaces the one that it is
directed at. -/
theorem exists_patched
    (consists : code.Consists (leading ++ ⟨opcode, [old]⟩ :: trailing))
    (fits : operand ≤ maxOperand) :
    ∃ after,
      patchOperand (codeSize leading) operand code = .ok ⟨⟩ after ∧
        after.Consists (leading ++ ⟨opcode, [operand]⟩ :: trailing) := by
  have written := encode_of_fetch consists.fetch_behind fits
  refine ⟨_, ?_, consists.overwrite written⟩
  rw [patchOperand_eq, consists.patchedBytes_eq, written]

/-- Where no instruction with an operand begins, there is something to patch
only within an operand. -/
theorem within_operand_of_patchable
    {instrs : List Instr}
    (consists : code.Consists instrs)
    (misdirected :
      ∀ line ∈ linesFrom 0 instrs,
        line.offset = offset → line.instr.operands = [])
    (patchable : code.Patchable offset) :
    ∃ line ∈ linesFrom 0 instrs,
      line.offset < offset ∧ offset < line.offset + line.instr.size := by
  obtain ⟨opcode, old, next, fetched⟩ := patchable
  have inside : offset < 0 + codeSize instrs := by
    rw [Nat.zero_add, ← consists.size_eq]
    exact lt_size_of_fetch fetched
  obtain ⟨line, member, atOrBehind, before⟩ :=
    exists_line_of_lt (Nat.zero_le offset) inside
  have notStart : line.offset ≠ offset := by
    intro isStart
    have bare := misdirected line member isStart
    have lineFetched := consists.holds.fetch_of_mem member
    rw [isStart, fetched] at lineFetched
    rw [← (Fetch.instr.inj lineFetched).1] at bare
    cases bare
  exact ⟨line, member, Nat.lt_of_le_of_ne atOrBehind notStart, before⟩

end Consists

/-- Patching rewrites one operand and nothing else. An instruction with an
operand, wherever it stands among others, is patched exactly when the new
operand fits; the code is then listed as before but for this operand. For any
code and any offset, a patch that is refused leaves the code, and one that is
accepted changes at most the two bytes behind the offset. -/
theorem patching_replaces_one_operand (code : Code) (offset operand : Nat) :
    (∀ (instrs : List Instr) (index : Nat) (opcode : Opcode) (old : Nat),
        code.Consists instrs →
        (linesFrom 0 instrs)[index]? = some ⟨offset, ⟨opcode, [old]⟩⟩ →
          if operand ≤ maxOperand then
            ∃ after,
              patchOperand offset operand code = .ok ⟨⟩ after ∧
                after.size = code.size ∧
                after.Consists (instrs.set index ⟨opcode, [operand]⟩) ∧
                after.listing =
                  ⟨((linesFrom 0 instrs).set index
                      ⟨offset, ⟨opcode, [operand]⟩⟩).toArray,
                    none⟩
          else
            patchOperand offset operand code =
              .error (.operandOutOfRange opcode operand 2) code) ∧
      (∀ error after,
        patchOperand offset operand code = .error error after →
          after = code) ∧
      ∀ after,
        patchOperand offset operand code = .ok ⟨⟩ after →
          code.SameButOperand after offset := by
  refine ⟨?_, fun _ _ => eq_of_patchOperand_error,
    fun _ => sameButOperand_of_patchOperand_ok⟩
  intro instrs index opcode old consists found
  obtain ⟨leading, trailing, rfl, rfl, begins⟩ := exists_split_of_line found
  rw [Nat.zero_add] at begins
  obtain rfl : offset = codeSize leading := begins
  by_cases fits : operand ≤ maxOperand
  case pos =>
    rw [if_pos fits]
    obtain ⟨after, accepted, patched⟩ := consists.exists_patched fits
    have sameSize :
        (Instr.mk opcode [operand]).size = (Instr.mk opcode [old]).size :=
      rfl
    refine ⟨after, accepted,
      (sameButOperand_of_patchOperand_ok accepted).size, ?_, ?_⟩
    · simpa using patched
    · rw [patched.listing_eq, linesFrom_replaced leading trailing sameSize]
  case neg =>
    rw [if_neg fits, patchOperand_of_fetch consists.fetch_behind, if_neg fits]

/-- The target of a jump is filled in before another instruction. -/
theorem patching_replaces_jump_target :
    ∃ after,
      patchOperand 0 4 ⟨#[13, 39, 15, 6]⟩ = .ok ⟨⟩ after ∧
        after.Consists [⟨.jumpNotTruthy, [4]⟩, ⟨.pushTrue, []⟩] := by
  have consists :
      (Code.mk #[13, 39, 15, 6]).Consists
        [⟨.jumpNotTruthy, [9999]⟩, ⟨.pushTrue, []⟩] :=
    consists_iff_listing.mpr ⟨by cbv, by cbv⟩
  have replaced :=
    (patching_replaces_one_operand ⟨#[13, 39, 15, 6]⟩ 0 4).1 _ 0
      .jumpNotTruthy 9999 consists rfl
  rw [if_pos (by decide)] at replaced
  obtain ⟨after, accepted, _, patched, _⟩ := replaced
  exact ⟨after, accepted, patched⟩

/-- A patch with an operand that fits, directed at an offset where no instruction
with an operand begins, is refused as a bad one exactly when the bytes from there
on do not read as an instruction with an operand. Only within an operand can they
read as one, and then the patch rewrites the two bytes that read as its
operand. -/
theorem misdirected_patch_refused_or_within_operand
    {code : Code} {instrs : List Instr} {offset operand : Nat}
    (consists : code.Consists instrs)
    (misdirected :
      ∀ line ∈ linesFrom 0 instrs,
        line.offset = offset → line.instr.operands = [])
    (fits : operand ≤ maxOperand) :
    (patchOperand offset operand code = .error (.badPatch offset) code ↔
        ¬ code.Patchable offset) ∧
      (code.Patchable offset →
        (∃ line ∈ linesFrom 0 instrs,
          line.offset < offset ∧
            offset < line.offset + line.instr.size) ∧
        ∃ opcode after,
          patchOperand offset operand code = .ok ⟨⟩ after ∧
            after.fetch offset = .instr ⟨opcode, [operand]⟩ (offset + 3) ∧
            code.SameButOperand after offset) := by
  have accepted_of_patchable (patchable : code.Patchable offset) :
      ∃ opcode after,
        patchOperand offset operand code = .ok ⟨⟩ after ∧
          after.fetch offset = .instr ⟨opcode, [operand]⟩ (offset + 3) ∧
          code.SameButOperand after offset := by
    obtain ⟨opcode, old, next, fetched⟩ := patchable
    obtain rfl := next_of_fetch_operand fetched
    exact ⟨opcode, exists_patched fetched fits⟩
  refine ⟨⟨?refused, fun misses => patchOperand_of_not_patchable misses fits⟩,
    fun patchable =>
      ⟨consists.within_operand_of_patchable misdirected patchable,
        accepted_of_patchable patchable⟩⟩
  case refused =>
    intro refused patchable
    obtain ⟨_, _, accepted, _⟩ := accepted_of_patchable patchable
    rw [refused] at accepted
    cases accepted

/-- There is nothing to patch at an operation without operands, nor in an operand
with too few bytes behind it. -/
theorem misdirected_patch_of_constant_and_pop :
    patchOperand 3 5 ⟨#[0, 0, 0, 2]⟩ =
        .error (.badPatch 3) ⟨#[0, 0, 0, 2]⟩ ∧
      patchOperand 2 5 ⟨#[0, 0, 0, 2]⟩ =
        .error (.badPatch 2) ⟨#[0, 0, 0, 2]⟩ := by
  have consists :
      (Code.mk #[0, 0, 0, 2]).Consists [⟨.constant, [0]⟩, ⟨.pop, []⟩] :=
    consists_iff_listing.mpr ⟨by cbv, by cbv⟩
  have bareAt3 : ¬ (Code.mk #[0, 0, 0, 2]).Patchable 3 := by
    rintro ⟨opcode, old, next, fetched⟩
    cases fetched
  have cutOffAt2 : ¬ (Code.mk #[0, 0, 0, 2]).Patchable 2 := by
    rintro ⟨opcode, old, next, fetched⟩
    cases fetched
  exact
    ⟨(misdirected_patch_refused_or_within_operand consists (by decide)
        (by decide)).1.mpr bareAt3,
      (misdirected_patch_refused_or_within_operand consists (by decide)
        (by decide)).1.mpr cutOffAt2⟩

/-- The zeros of an operand read as another operation with an operand, so that a
patch directed at them is accepted, and turns the next instruction into another
one. -/
theorem patch_within_operand_accepted :
    (Code.mk #[0, 0, 0, 2]).Consists [⟨.constant, [0]⟩, ⟨.pop, []⟩] ∧
      (∀ line ∈ linesFrom 0 [⟨.constant, [0]⟩, ⟨.pop, []⟩],
        line.offset ≠ 1) ∧
      patchOperand 1 5 ⟨#[0, 0, 0, 2]⟩ = .ok ⟨⟩ ⟨#[0, 0, 0, 5]⟩ ∧
      (Code.mk #[0, 0, 0, 5]).Consists [⟨.constant, [0]⟩, ⟨.div, []⟩] :=
  ⟨consists_iff_listing.mpr ⟨by cbv, by cbv⟩, by decide, by rfl,
    consists_iff_listing.mpr ⟨by cbv, by cbv⟩⟩

end Code

/-- The compiler patches the code that it has laid down in this very way. -/
theorem CompileM.patch_as_patchOperand
    (offset operand : Nat) (before : Compilation) :
    match Code.patchOperand offset operand before.assembler.code with
    | .ok _ code =>
        ∃ after,
          CompileM.patch offset operand before = .ok ⟨⟩ after ∧
            after.assembler.code = code
    | .error error code =>
        ∃ after,
          CompileM.patch offset operand before =
              .error (.encode error) after ∧
            after.assembler.code = code := by
  have sameCode :
      (before.assembler.notePatch offset operand).code =
        before.assembler.code :=
    rfl
  simp only [Code.patchOperand_eq, CompileM.patch, CompileM.modifyAssembler,
    bind_modify, bind_get, sameCode]
  cases before.assembler.code.patchedBytes offset operand with
  | error error =>
      exact ⟨_, rfl, rfl⟩
  | ok encoded =>
      exact ⟨_, rfl, rfl⟩

end StackLang
