import StackLang.Compilation.Basic
import StackLang.Proofs.Code.Patching

namespace StackLang

/-!
# The assembler keeps a sequence of instructions

`Assembler.Tracks` says which instructions an assembler has laid down so far,
and that its records of the last two of them are right. Emitting adds one
instruction, retracting takes one off, and patching changes one operand.

Only one record is left after a retraction, so that a second one needs an
emission in between: the record of the last but one instruction is claimed only
while the last one is there to be retracted.
-/

namespace Instr

/-- An instruction without operands is one byte. -/
theorem encode_bare
    {opcode : Opcode} (bare : opcode.operandWidths = []) :
    (Instr.mk opcode []).encode = .ok [opcode.byte] := by
  simp [encode, bare, encodeOperands, Except.map]

end Instr

/-- The operation of the last instruction, if there is one. -/
def lastOpcode? (instrs : List Instr) : Option Opcode :=
  instrs.getLast?.map Instr.opcode

@[simp] theorem lastOpcode?_nil : lastOpcode? [] = none :=
  rfl

@[simp] theorem lastOpcode?_append (first second : List Instr) :
    lastOpcode? (first ++ second) =
      (lastOpcode? second).or (lastOpcode? first) := by
  rw [lastOpcode?, List.getLast?_append]
  cases shape : second.getLast? <;> simp [lastOpcode?, shape]

@[simp] theorem lastOpcode?_cons (instr : Instr) (rest : List Instr) :
    lastOpcode? (instr :: rest) =
      (lastOpcode? rest).or (some instr.opcode) := by
  rw [← List.singleton_append, lastOpcode?_append]
  rfl

/-- The record of the last of some instructions. -/
def lastEmitted (instrs : List Instr) : Option Emitted :=
  instrs.getLast?.map fun instr => ⟨instr.opcode, codeSize instrs.dropLast⟩

@[simp] theorem lastEmitted_concat (instrs : List Instr) (instr : Instr) :
    lastEmitted (instrs ++ [instr]) =
      some ⟨instr.opcode, codeSize instrs⟩ := by
  simp [lastEmitted]

/-- The record of the last instruction names its operation. -/
theorem map_opcode_lastEmitted (instrs : List Instr) :
    (lastEmitted instrs).map Emitted.opcode = lastOpcode? instrs := by
  rw [lastEmitted, lastOpcode?, Option.map_map]
  rfl

namespace Assembler

/-- The assembler has laid down these instructions. -/
structure Tracks (assembler : Assembler) (instrs : List Instr) : Prop where
  consists : assembler.code.Consists instrs
  last : assembler.last = lastEmitted instrs
  previous :
    lastOpcode? instrs = some .pop →
      assembler.previous = lastEmitted instrs.dropLast

namespace Tracks

variable {assembler : Assembler} {instrs leading trailing : List Instr}
variable {instr : Instr} {opcode : Opcode} {old new : Nat}
variable {encoded : List UInt8}

/-- Nothing is laid down at first. -/
theorem empty : Assembler.empty.Tracks [] where
  consists := ⟨by simp, rfl⟩
  last := rfl
  previous := by
    intro endsInPop
    cases endsInPop

/-- The next instruction begins where the ones laid down end. -/
theorem offset_eq (tracks : assembler.Tracks instrs) :
    assembler.offset = codeSize instrs :=
  tracks.consists.size_eq

/-- The assembler knows the operation that its code ends in. -/
theorem endsWith_iff (tracks : assembler.Tracks instrs) :
    assembler.endsWith opcode = true ↔ lastOpcode? instrs = some opcode := by
  rw [← map_opcode_lastEmitted, ← tracks.last, endsWith]
  cases assembler.last <;> simp

/-- Emitting adds an instruction at the end. -/
theorem emit
    (tracks : assembler.Tracks instrs)
    (accepted : instr.encode = .ok encoded) :
    (assembler.emit instr encoded).Tracks (instrs ++ [instr]) := by
  refine ⟨⟨?_, ?_⟩, ?_, ?_⟩
  · intro other member
    rcases List.mem_append.mp member with isEarlier | isNew
    · exact tracks.consists.encodable other isEarlier
    · exact List.mem_singleton.mp isNew ▸ ⟨encoded, accepted⟩
  · simp [Assembler.emit, Code.append, tracks.consists.bytes,
      Instr.bytes_of_encode accepted]
  · rw [lastEmitted_concat, ← tracks.offset_eq]
    rfl
  · intro _
    rw [List.dropLast_concat]
    exact tracks.last

/-- Retracting takes off the last instruction, a pop. What is left must not end
in another one, whose own predecessor would be unknown. -/
theorem retract
    (tracks : assembler.Tracks (instrs ++ [⟨.pop, []⟩]))
    (single : lastOpcode? instrs ≠ some .pop) :
    assembler.retract.Tracks instrs := by
  have lastIsPop : assembler.last = some ⟨.pop, codeSize instrs⟩ := by
    rw [tracks.last, lastEmitted_concat]
  have previousKnown : assembler.previous = lastEmitted instrs := by
    rw [tracks.previous (by simp), List.dropLast_concat]
  have encodable : ∀ instr ∈ instrs, instr.Encodable :=
    fun instr member =>
      tracks.consists.encodable instr (List.mem_append_left _ member)
  unfold Assembler.retract
  rw [lastIsPop]
  refine ⟨⟨encodable, ?_⟩, previousKnown, fun endsInPop =>
    (single endsInPop).elim⟩
  simp only [Code.truncate, Array.shrink_eq_take, Array.take_eq_extract,
    Array.toList_extract, List.extract_eq_take_drop, List.drop_zero,
    tracks.consists.bytes, encodeAll_append, Nat.sub_zero]
  exact List.take_left' (length_encodeAll encodable)

/-- Noting a patch changes neither the code nor a record. -/
theorem notePatch
    (tracks : assembler.Tracks instrs) (offset operand : Nat) :
    (assembler.notePatch offset operand).Tracks instrs :=
  ⟨tracks.consists, tracks.last, tracks.previous⟩

/-- Patching changes the operand of one instruction. -/
theorem overwrite
    (tracks : assembler.Tracks (leading ++ ⟨opcode, [old]⟩ :: trailing))
    (accepted : (Instr.mk opcode [new]).encode = .ok encoded) :
    (assembler.overwrite (codeSize leading) encoded).Tracks
      (leading ++ ⟨opcode, [new]⟩ :: trailing) := by
  have sameLast (rest : List Instr) :
      lastEmitted (leading ++ ⟨opcode, [old]⟩ :: rest) =
        lastEmitted (leading ++ ⟨opcode, [new]⟩ :: rest) := by
    rcases List.eq_nil_or_concat rest with isNil | ⟨others, final, shape⟩
    · simp [isNil]
    · have sameSize :
          (Instr.mk opcode [old]).size = (Instr.mk opcode [new]).size :=
        rfl
      rw [shape, List.concat_eq_append, ← List.cons_append,
        ← List.append_assoc, lastEmitted_concat, ← List.cons_append,
        ← List.append_assoc, lastEmitted_concat]
      simp [sameSize]
  refine ⟨tracks.consists.overwrite accepted,
    tracks.last.trans (sameLast trailing), ?_⟩
  intro endsInPop
  have endedInPop :
      lastOpcode? (leading ++ ⟨opcode, [old]⟩ :: trailing) = some .pop := by
    simpa using endsInPop
  have known := tracks.previous endedInPop
  change assembler.previous = _
  rcases List.eq_nil_or_concat trailing with isNil | ⟨others, final, shape⟩
  · subst isNil
    simpa using known
  · subst shape
    rw [List.concat_eq_append, ← List.cons_append, ← List.append_assoc,
      List.dropLast_concat] at known ⊢
    exact known.trans (sameLast others)

end Tracks

end Assembler

end StackLang
