import StackLang.Proofs.Code.Split

namespace StackLang

/-!
# The text of a listing

A listing is written line by line, and a line field by field: the offset, the
name and each operand. No field has a blank or a newline in it, so that the
lines can be read back from the text, and the fields from a line.
-/

/-- Neither a blank nor a newline. -/
def Solid (char : Char) : Prop :=
  char ≠ ' ' ∧ char ≠ '\n'

instance : DecidablePred Solid := fun char =>
  inferInstanceAs (Decidable (char ≠ ' ' ∧ char ≠ '\n'))

/-- Decimal digits are solid. -/
theorem solid_of_mem_toDigits
    {number : Nat} {char : Char} (member : char ∈ Nat.toDigits 10 number) :
    Solid char := by
  have isDigit := Nat.isDigit_of_mem_toDigits (by decide) (by decide) member
  constructor
  · rintro rfl
    exact absurd isDigit (by decide)
  · rintro rfl
    exact absurd isDigit (by decide)

/-- Decimal digits tell their number. -/
theorem toDigits_injective : Function.Injective (Nat.toDigits 10) := by
  intro first second same
  calc
    first = Nat.ofDigitChars 10 (Nat.toDigits 10 first) 0 :=
      Nat.ofDigitChars_ten_toDigits.symm
    _ = Nat.ofDigitChars 10 (Nat.toDigits 10 second) 0 := by rw [same]
    _ = second := Nat.ofDigitChars_ten_toDigits

/-- Names are solid. -/
theorem Opcode.solid_of_mem_name
    {opcode : Opcode} {char : Char} (member : char ∈ opcode.name.toList) :
    Solid char := by
  have unbroken : opcode.name.toList.all (Solid ·) := by
    cases opcode <;> rfl
  exact of_decide_eq_true (List.all_eq_true.mp unbroken char member)

/-- An operation is found again under its name. -/
theorem Opcode.find?_name (opcode : Opcode) :
    all.find? (·.name = opcode.name) = some opcode := by
  cases opcode <;> rfl

/-- A written offset has at least four digits. -/
theorem toList_renderOffset (offset : Nat) :
    (renderOffset offset).toList =
      (Nat.toDigits 10 offset).leftpad offsetDigits '0' := by
  have padding (count : Nat) :
      ("".pushn '0' count).toList = List.replicate count '0' := by
    rw [String.pushn_eq_repeat_push]
    induction count with
    | zero =>
        rfl
    | succ count inductionHypothesis =>
        rw [Nat.repeat, String.toList_push, inductionHypothesis,
          List.replicate_succ']
  rw [renderOffset, String.toList_append, padding, Nat.toString_eq_repr,
    Nat.toList_repr, ← String.length_toList, Nat.toList_repr, List.leftpad]

/-- Every field but the first is written behind a separator. -/
theorem intercalate_cons_eq
    {α : Type} {separator : α} {head : List α} {rest : List (List α)} :
    [separator].intercalate (head :: rest) =
      head ++ rest.flatMap (separator :: ·) := by
  induction rest generalizing head with
  | nil =>
      simp
  | cons field others inductionHypothesis =>
      rw [List.intercalate_cons_cons, inductionHypothesis,
        List.flatMap_cons, List.append_assoc, List.singleton_append,
        List.cons_append]

namespace Instr

/-- The fields of an instruction: its name, and each operand in decimal. -/
def fields (instr : Instr) : List (List Char) :=
  instr.opcode.name.toList :: instr.operands.map (Nat.toDigits 10)

/-- The fields tell the instruction. -/
theorem fields_injective : Function.Injective fields := by
  rintro ⟨opcode, operands⟩ ⟨opcode', operands'⟩ same
  obtain ⟨sameName, sameOperands⟩ := List.cons.inj same
  have found := opcode.find?_name
  rw [String.toList_injective sameName, opcode'.find?_name] at found
  cases found
  obtain rfl : operands = operands' :=
    (List.map_inj_right toDigits_injective).mp sameOperands
  rfl

/-- The fields of an instruction are written with a blank between them. -/
theorem toList_render (instr : Instr) :
    instr.render.toList = [' '].intercalate instr.fields := by
  have written (text : String) (operands : List Nat) :
      (operands.foldl (fun text operand => text ++ " " ++ toString operand)
          text).toList =
        text.toList ++
          (operands.map (Nat.toDigits 10)).flatMap (' ' :: ·) := by
    induction operands generalizing text with
    | nil =>
        simp
    | cons operand operands inductionHypothesis =>
        rw [List.foldl_cons, inductionHypothesis, String.toList_append,
          Nat.toString_eq_repr, Nat.toList_repr]
        simp
  rw [fields, intercalate_cons_eq]
  exact written instr.opcode.name instr.operands

end Instr

namespace Line

/-- The fields of a line: its offset, and those of its instruction. -/
def fields (line : Line) : List (List Char) :=
  (Nat.toDigits 10 line.offset).leftpad offsetDigits '0' :: line.instr.fields

/-- The fields of a line are written with a blank between them. -/
theorem toList_render (line : Line) :
    line.render.toList = [' '].intercalate line.fields := by
  rw [render, String.toList_append, String.toList_append, toList_renderOffset,
    line.instr.toList_render, fields, Instr.fields,
    List.intercalate_cons_cons]
  rfl

/-- The fields of a line are solid. -/
theorem solid_of_mem_fields
    {line : Line} {field : List Char} (isField : field ∈ line.fields)
    {char : Char} (member : char ∈ field) : Solid char := by
  rcases List.mem_cons.mp isField with rfl | inInstr
  · rcases List.mem_append.mp member with isPadding | inDigits
    · rw [List.eq_of_mem_replicate isPadding]
      exact ⟨by decide, by decide⟩
    · exact solid_of_mem_toDigits inDigits
  · rcases List.mem_cons.mp inInstr with rfl | isOperand
    · exact Opcode.solid_of_mem_name member
    · obtain ⟨operand, _, rfl⟩ := List.mem_map.mp isOperand
      exact solid_of_mem_toDigits member

/-- The fields are read back from a line. -/
theorem splitOn_render (line : Line) :
    line.render.toList.splitOn ' ' = line.fields := by
  rw [line.toList_render]
  refine List.splitOn_intercalate ' ' ?_ (List.cons_ne_nil _ _)
  intro field isField member
  exact (solid_of_mem_fields isField member).1 rfl

/-- There is no newline in a line. -/
theorem newline_notMem_render (line : Line) : '\n' ∉ line.render.toList := by
  have notInField {field : List Char} (isField : field ∈ line.fields) :
      '\n' ∉ field :=
    fun member => (solid_of_mem_fields isField member).2 rfl
  rw [line.toList_render, fields, intercalate_cons_eq, List.mem_append,
    List.mem_flatMap]
  rintro (inOffset | ⟨field, isField, member⟩)
  · exact notInField List.mem_cons_self inOffset
  · rcases List.mem_cons.mp member with isBlank | inField
    · exact absurd isBlank (by decide)
    · exact notInField (List.mem_cons_of_mem _ isField) inField

end Line

/-- Lines of text, each ended by a newline. -/
def endLines (texts : List String) : String :=
  String.join (texts.map (· ++ "\n"))

/-- Lines are read back from their text, and an empty one behind the last
newline. -/
theorem splitOn_endLines
    {texts : List String} (unbroken : ∀ text ∈ texts, '\n' ∉ text.toList) :
    (endLines texts).toList.splitOn '\n' =
      texts.map String.toList ++ [[]] := by
  have separated :
      (endLines texts).toList =
        ['\n'].intercalate (texts.map String.toList ++ [[]]) := by
    rw [endLines, String.toList_join]
    induction texts with
    | nil =>
        rfl
    | cons text rest inductionHypothesis =>
        have restSeparated := inductionHypothesis fun other member =>
          unbroken other (List.mem_cons_of_mem _ member)
        rw [List.map_cons, List.flatMap_cons, restSeparated, List.map_cons,
          List.cons_append, List.intercalate_cons_of_ne_nil (by simp),
          String.toList_append]
        rfl
  rw [separated]
  refine List.splitOn_intercalate '\n' ?_ (by simp)
  intro line member
  rcases List.mem_append.mp member with isText | isEnd
  · obtain ⟨text, isMember, rfl⟩ := List.mem_map.mp isText
    exact unbroken text isMember
  · rw [List.mem_singleton.mp isEnd]
    exact List.not_mem_nil

namespace Listing

/-- The lines of a listing: its instructions, and the error at its end. -/
def texts (listing : Listing) : List String :=
  listing.lines.toList.map Line.render ++
    listing.fault.toList.map ("ERROR: " ++ ·.message)

/-- A listing is written line by line. -/
theorem render_eq (listing : Listing) :
    listing.render = endLines listing.texts := by
  have instructions (text : String) (lines : List Line) :
      lines.foldl (fun text line => text ++ line.render ++ "\n") text =
        text ++ endLines (lines.map Line.render) := by
    induction lines generalizing text with
    | nil =>
        simp [endLines]
    | cons line rest inductionHypothesis =>
        rw [List.foldl_cons, inductionHypothesis]
        simp [endLines, String.append_assoc]
  rw [render, ← Array.foldl_toList, instructions, texts]
  cases listing.fault with
  | none =>
      simp
  | some error =>
      simp [endLines, String.append_assoc]

end Listing

end StackLang
