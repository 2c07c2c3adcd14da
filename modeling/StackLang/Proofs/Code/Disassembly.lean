import StackLang.Proofs.Code.Text

namespace StackLang

/-!
# Disassembly

Any code is disassembled, and its text is fixed by how the bytes split: a line
for each instruction that the code begins with, and a line for the error if
there are bytes behind these. The text of code that is nothing but instructions
tells its bytes.
-/

/-- What a line says: the offset in at least four digits, the name, and each
operand in decimal behind a blank. -/
def Line.text (line : Line) : String :=
  String.ofList ((Nat.toDigits 10 line.offset).leftpad 4 '0') ++ " " ++
    line.instr.opcode.name ++
    String.join (line.instr.operands.map (" " ++ toString ·))

/-- A line is written as it should be. -/
theorem Line.render_eq_text (line : Line) : line.render = line.text := by
  refine String.toList_injective ?_
  rw [line.toList_render, fields, Instr.fields, intercalate_cons_eq, text]
  simp [String.toList_join, List.flatMap_map, offsetDigits]

/-- The lines for instructions and for the bytes behind them: the error is that
of the first byte if it denotes no operation, and else that of the operand bytes
that are missing. -/
def splitTexts (instrs : List Instr) (rest : List UInt8) : List String :=
  (linesFrom 0 instrs).map Line.text ++
    (undecodableReason? rest).toList.map ("ERROR: " ++ ·.message)

/-- There is no newline in the wording of an error about bytes. -/
theorem newline_notMem_message
    {bytes : List UInt8} {error : DecodeError}
    (isReason : undecodableReason? bytes = some error) :
    '\n' ∉ error.message.toList := by
  have notInDigits (number : Nat) : '\n' ∉ Nat.toDigits 10 number :=
    fun member => (solid_of_mem_toDigits member).2 rfl
  have notInName (opcode : Opcode) : '\n' ∉ opcode.name.toList :=
    fun member => (Opcode.solid_of_mem_name member).2 rfl
  cases bytes with
  | nil =>
      cases isReason
  | cons byte operands =>
      rw [undecodableReason?] at isReason
      cases known : Opcode.ofByte? byte with
      | none =>
          rw [known] at isReason
          cases isReason
          have wording :
              (DecodeError.undefinedOpcode byte).message =
                "opcode " ++ toString byte.toNat ++ " undefined" :=
            rfl
          rw [wording]
          simp [notInDigits]
      | some opcode =>
          rw [known] at isReason
          cases isReason
          have wording :
              (DecodeError.truncated opcode.name 2 operands.length).message =
                opcode.name ++ " needs " ++ toString 2 ++
                  " operand bytes, only " ++ toString operands.length ++
                  " available" :=
            rfl
          rw [wording]
          simp [notInDigits, notInName]

/-- There is no newline in a line for a split. -/
theorem newline_notMem_splitTexts
    {instrs : List Instr} {rest : List UInt8} {text : String}
    (member : text ∈ splitTexts instrs rest) : '\n' ∉ text.toList := by
  rcases List.mem_append.mp member with isLine | isError
  · obtain ⟨line, _, rfl⟩ := List.mem_map.mp isLine
    rw [← line.render_eq_text]
    exact line.newline_notMem_render
  · obtain ⟨error, isReason, rfl⟩ := List.mem_map.mp isError
    have notInMessage :=
      newline_notMem_message (Option.mem_toList.mp isReason)
    simp [notInMessage]

/-- There is a line for each instruction, and one for bytes behind them. -/
theorem length_splitTexts (instrs : List Instr) (rest : List UInt8) :
    (splitTexts instrs rest).length =
      instrs.length + if rest = [] then 0 else 1 := by
  have lines : (linesFrom 0 instrs).length = instrs.length := by
    rw [← List.length_map Line.instr, map_instr_linesFrom]
  rw [splitTexts, List.length_append, List.length_map, List.length_map, lines]
  congr 1
  by_cases isEmpty : rest = []
  · rw [if_pos isEmpty, undecodableReason?_eq_none_iff.mpr isEmpty]
    rfl
  · rw [if_neg isEmpty]
    cases reason : undecodableReason? rest with
    | none =>
        exact (isEmpty (undecodableReason?_eq_none_iff.mp reason)).elim
    | some error =>
        rfl

/-- There are no more instructions than they have bytes. -/
theorem length_le_codeSize (instrs : List Instr) :
    instrs.length ≤ codeSize instrs := by
  induction instrs with
  | nil =>
      exact Nat.le_refl 0
  | cons instr rest inductionHypothesis =>
      have positive := instr.size_pos
      rw [List.length_cons, codeSize_cons]
      omega

namespace Code

/-- The text of code says what its listing shows. -/
theorem disassemble_eq (code : Code) :
    code.disassemble =
      endLines
        (code.listing.lines.toList.map Line.text ++
          code.listing.fault.toList.map ("ERROR: " ++ ·.message)) := by
  rw [disassemble, Listing.render_eq, Listing.texts,
    funext Line.render_eq_text]

/-- The text of code is that of its split. -/
theorem Splits.disassemble_eq
    {code : Code} {instrs : List Instr} {rest : List UInt8}
    (splits : code.Splits instrs rest) :
    code.disassemble = endLines (splitTexts instrs rest) := by
  rw [code.disassemble_eq, splits.listing_eq, splitTexts]

/-- The text of instructions tells them. -/
theorem Consists.eq_of_disassemble_eq
    {first second : Code} {instrs others : List Instr}
    (consists : first.Consists instrs) (consistsToo : second.Consists others)
    (same : first.disassemble = second.disassemble) : instrs = others := by
  -- From the text to its lines, to their fields without the offset.
  let reread (text : String) : List (List (List Char)) :=
    (text.toList.splitOn '\n').dropLast.map fun line =>
      (line.splitOn ' ').tail
  have rereads {code : Code} {instrs : List Instr}
      (consists : code.Consists instrs) :
      reread code.disassemble = instrs.map Instr.fields := by
    have splits := consists.splits
    have unbroken (text : String) (member : text ∈ splitTexts instrs []) :
        '\n' ∉ text.toList :=
      newline_notMem_splitTexts member
    simp only [reread, splits.disassemble_eq, splitOn_endLines unbroken,
      List.dropLast_concat]
    calc
      ((splitTexts instrs []).map String.toList).map
            (fun line => (line.splitOn ' ').tail)
          = (linesFrom 0 instrs).map (fun line => line.instr.fields) := by
            simp [splitTexts, undecodableReason?, ← Line.render_eq_text,
              Line.splitOn_render, Line.fields]
      _ = ((linesFrom 0 instrs).map Line.instr).map Instr.fields := by
            rw [List.map_map]
            rfl
      _ = instrs.map Instr.fields := by
            rw [map_instr_linesFrom]
  refine (List.map_inj_right Instr.fields_injective).mp ?_
  rw [← rereads consists, ← rereads consistsToo, same]

end Code

/-- Any bytes are disassembled. They split in one way only into instructions
and a rest that does not begin with one, and their text has a line for each of
the instructions, and one for the rest if there is any. -/
theorem disassembly_shows_split (code : Code) :
    ∃ instrs rest,
      (∀ others remainder,
        code.Splits others remainder ↔ others = instrs ∧ remainder = rest) ∧
      code.disassemble = endLines (splitTexts instrs rest) ∧
      (∀ text ∈ splitTexts instrs rest, '\n' ∉ text.toList) ∧
      (splitTexts instrs rest).length =
        instrs.length + (if rest = [] then 0 else 1) ∧
      (splitTexts instrs rest).length ≤ code.size := by
  obtain ⟨instrs, rest, splits⟩ := code.exists_splits
  refine ⟨instrs, rest, fun others remainder => ⟨splits.unique, ?_⟩,
    splits.disassemble_eq, fun text => newline_notMem_splitTexts,
    length_splitTexts instrs rest, ?_⟩
  · rintro ⟨rfl, rfl⟩
    exact splits
  · have shorter := length_le_codeSize instrs
    rw [length_splitTexts, splits.size_eq]
    split
    case isTrue isEmpty =>
      omega
    case isFalse isRest =>
      have positive := List.length_pos_iff.mpr isRest
      omega

/-- The byte after that of the second operation denotes one as well, but is not
listed. -/
example :
    (Code.mk #[2, 0, 15]).disassemble =
      "0000 OpPop\nERROR: OpConstant needs 2 operand bytes, only 1 available\n" := by
  cbv

/-- Code that is nothing but instructions is told by its text. -/
theorem disassemble_injective
    {first second : Code} {instrs others : List Instr}
    (consists : first.Consists instrs) (consistsToo : second.Consists others)
    (same : first.disassemble = second.disassemble) : first = second := by
  have sameInstrs := consists.eq_of_disassemble_eq consistsToo same
  have sameBytes : first.bytes.toList = second.bytes.toList := by
    rw [consists.bytes, consistsToo.bytes, sameInstrs]
  obtain ⟨bytes⟩ := first
  obtain ⟨others⟩ := second
  exact congrArg Code.mk (Array.toList_inj.mp sameBytes)

/-- Code that was appended instruction by instruction, and code that was given
byte by byte. -/
theorem disassemble_injective_appended :
    let appended : Code := (Code.empty.append [14, 0, 4]).append [2]
    let given : Code := ⟨#[14, 0, 4, 2]⟩
    let instrs : List Instr := [⟨.jump, [4]⟩, ⟨.pop, []⟩]
    appended.Consists instrs ∧ given.Consists instrs ∧
      appended.disassemble = given.disassemble ∧ appended = given := by
  intro appended given instrs
  have encodable : ∀ instr ∈ instrs, instr.Encodable :=
    List.forall_mem_cons.mpr
      ⟨⟨_, rfl⟩, List.forall_mem_cons.mpr ⟨⟨_, rfl⟩, nofun⟩⟩
  have consists : appended.Consists instrs := ⟨encodable, rfl⟩
  have consistsToo : given.Consists instrs := ⟨encodable, rfl⟩
  have same : appended.disassemble = given.disassemble := by
    rfl
  exact ⟨consists, consistsToo, same,
    disassemble_injective consists consistsToo same⟩

end StackLang
