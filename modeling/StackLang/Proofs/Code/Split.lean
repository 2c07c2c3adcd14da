import StackLang.Proofs.Code.Sequence
import StackLang.Proofs.Instr.Decoding

namespace StackLang

/-!
# Any code

Any bytes begin with instructions, and what is behind these is empty or begins
with no further one. There is only one way to split bytes so, and a listing goes
through them in this way: it shows the instructions, and why there is none where
it stops.
-/

/-- The bytes begin with those of an instruction. -/
def StartsWithInstr (bytes : List UInt8) : Prop :=
  ∃ (instr : Instr) (rest : List UInt8),
    instr.Encodable ∧ bytes = instr.bytes ++ rest

/-- Instructions have bytes, so no bytes begin with none. -/
theorem not_startsWithInstr_nil : ¬ StartsWithInstr [] := by
  rintro ⟨instr, rest, encodable, isEmpty⟩
  have positive := instr.size_pos
  rw [← Instr.length_bytes encodable,
    (List.append_eq_nil_iff.mp isEmpty.symm).1] at positive
  exact Nat.lt_irrefl 0 positive

/-- Bytes begin with instructions, and behind these with none. -/
theorem exists_instrs_before_rest (bytes : List UInt8) :
    ∃ instrs rest,
      (∀ instr ∈ instrs, instr.Encodable) ∧
        bytes = encodeAll instrs ++ rest ∧ ¬ StartsWithInstr rest := by
  by_cases starts : StartsWithInstr bytes
  case neg =>
    exact ⟨[], bytes, nofun, rfl, starts⟩
  case pos =>
    obtain ⟨instr, behind, encodable, isSplit⟩ := starts
    have shorter : behind.length < bytes.length := by
      have positive := instr.size_pos
      rw [isSplit, List.length_append, Instr.length_bytes encodable]
      omega
    obtain ⟨instrs, rest, othersEncodable, rfl, stuck⟩ :=
      exists_instrs_before_rest behind
    refine ⟨instr :: instrs, rest,
      List.forall_mem_cons.mpr ⟨encodable, othersEncodable⟩, ?_, stuck⟩
    rw [isSplit, encodeAll_cons, List.append_assoc]
termination_by bytes.length

/-- Why bytes that do not begin with an instruction do not: the first one
denotes no operation, or too few operand bytes follow it. There is no complaint
about no bytes. -/
def undecodableReason? : List UInt8 → Option DecodeError
  | [] =>
      none
  | byte :: operands =>
      match Opcode.ofByte? byte with
      | none =>
          some (.undefinedOpcode byte)
      | some opcode =>
          some (.truncated opcode.name 2 operands.length)

/-- There is a complaint about any bytes. -/
theorem undecodableReason?_eq_none_iff {bytes : List UInt8} :
    undecodableReason? bytes = none ↔ bytes = [] := by
  cases bytes with
  | nil =>
      exact iff_of_true rfl rfl
  | cons byte operands =>
      rw [undecodableReason?]
      cases Opcode.ofByte? byte <;> simp

/-- Operands take two bytes, or none. -/
theorem Opcode.operandSize_cases (opcode : Opcode) :
    opcode.layout.operandSize = 0 ∨ opcode.layout.operandSize = 2 := by
  cases opcode <;> decide

namespace Code

variable {code : Code} {offset : Nat}

/-- What is fetched where no instruction begins. -/
theorem fetch_of_stuck
    (stuck : ¬ StartsWithInstr (code.bytes.toList.drop offset)) :
    code.fetch offset =
      match undecodableReason? (code.bytes.toList.drop offset) with
      | none =>
          .past
      | some error =>
          .undecodable error := by
  have noInstr (instr : Instr) (next : Nat) :
      code.fetch offset ≠ .instr instr next := by
    intro fetched
    obtain ⟨encodable, placed⟩ := drop_of_fetch fetched
    exact stuck ⟨instr, _, encodable, placed⟩
  cases behind : code.bytes.toList.drop offset with
  | nil =>
      rw [List.drop_eq_nil_iff, Array.length_toList] at behind
      exact fetch_eq_past_iff.mpr behind
  | cons byte operands =>
      have present : code.bytes[offset]? = some byte := by
        rw [← Array.getElem?_toList, ← List.head?_drop, behind]
        rfl
      have available : code.bytes.size - (offset + 1) = operands.length := by
        have lengths := congrArg List.length behind
        rw [List.length_drop, List.length_cons, Array.length_toList] at lengths
        omega
      cases known : Opcode.ofByte? byte with
      | none =>
          simp only [fetch, present, Opcode.ofByte, known, undecodableReason?]
      | some opcode =>
          simp only [fetch, present, Opcode.ofByte, known, undecodableReason?,
            Layout.decodeOperands, available] at noInstr ⊢
          -- With enough operand bytes an instruction would begin here.
          by_cases short : operands.length < opcode.layout.operandSize
          · have needsTwo : opcode.layout.operandSize = 2 :=
              opcode.operandSize_cases.resolve_left (by omega)
            rw [if_pos short, needsTwo]
            rfl
          · simp only [if_neg short] at noInstr
            exact (noInstr _ _ rfl).elim

/-- Code begins with instructions, and what is behind them does not begin with
one. -/
structure Splits
    (code : Code) (instrs : List Instr) (rest : List UInt8) : Prop where
  encodable : ∀ instr ∈ instrs, instr.Encodable
  bytes : code.bytes.toList = encodeAll instrs ++ rest
  stuck : ¬ StartsWithInstr rest

/-- Any code splits into instructions and a rest. -/
theorem exists_splits (code : Code) :
    ∃ instrs rest, code.Splits instrs rest := by
  obtain ⟨instrs, rest, encodable, bytes, stuck⟩ :=
    exists_instrs_before_rest code.bytes.toList
  exact ⟨instrs, rest, encodable, bytes, stuck⟩

namespace Splits

variable {instrs : List Instr} {rest : List UInt8}

/-- The instructions stand at the start of the code. -/
theorem holds (splits : code.Splits instrs rest) : code.Holds 0 instrs :=
  ⟨splits.encodable, rest, splits.bytes⟩

/-- The code is as long as its instructions and the rest. -/
theorem size_eq (splits : code.Splits instrs rest) :
    code.size = codeSize instrs + rest.length := by
  rw [size, ← Array.length_toList, splits.bytes, List.length_append,
    length_encodeAll splits.encodable]

/-- What is fetched behind the instructions. -/
theorem fetch_rest (splits : code.Splits instrs rest) :
    code.fetch (codeSize instrs) =
      match undecodableReason? rest with
      | none =>
          .past
      | some error =>
          .undecodable error := by
  have isRest : code.bytes.toList.drop (codeSize instrs) = rest := by
    rw [splits.bytes, List.drop_left' (length_encodeAll splits.encodable)]
  rw [← isRest]
  exact fetch_of_stuck (by rw [isRest]; exact splits.stuck)

/-- A listing shows the instructions, and why it stops. -/
theorem listing_eq (splits : code.Splits instrs rest) :
    code.listing =
      ⟨(linesFrom 0 instrs).toArray, undecodableReason? rest⟩ := by
  have behind := splits.fetch_rest
  rw [listing, listFrom_of_holds #[] splits.holds, Nat.zero_add,
    Array.empty_append]
  cases reason : undecodableReason? rest with
  | none =>
      rw [reason] at behind
      exact listFrom_of_past _ behind
  | some error =>
      rw [reason] at behind
      exact listFrom_of_undecodable _ behind

/-- Code splits in one way at most. -/
theorem unique
    {others : List Instr} {remainder : List UInt8}
    (splits : code.Splits instrs rest)
    (splitsToo : code.Splits others remainder) :
    others = instrs ∧ remainder = rest := by
  have shown {instrs : List Instr} {rest : List UInt8}
      (splits : code.Splits instrs rest) :
      code.listing.lines.toList.map Line.instr = instrs := by
    rw [splits.listing_eq]
    exact map_instr_linesFrom 0 instrs
  have same : others = instrs := (shown splitsToo).symm.trans (shown splits)
  refine ⟨same, ?_⟩
  have bytes := splitsToo.bytes
  rw [splits.bytes, same] at bytes
  exact (List.append_cancel_left bytes).symm

/-- Code without a rest consists of its instructions. -/
theorem consists (splits : code.Splits instrs []) : code.Consists instrs :=
  ⟨splits.encodable, by rw [splits.bytes, List.append_nil]⟩

end Splits

/-- Code that consists of instructions splits into them, without a rest. -/
theorem Consists.splits
    {instrs : List Instr} (consists : code.Consists instrs) :
    code.Splits instrs [] :=
  ⟨consists.encodable, by rw [consists.bytes, List.append_nil],
    not_startsWithInstr_nil⟩

end Code

end StackLang
