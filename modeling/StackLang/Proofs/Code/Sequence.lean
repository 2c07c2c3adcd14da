import StackLang.Code.Listing
import StackLang.Proofs.Instr.Encoding

namespace StackLang

/-!
# Code as a sequence of instructions

Code that was put together from instructions is fetched and listed as these
instructions. `Code.Holds` says that instructions stand one after the other at
an offset, with any bytes around them; `Code.Consists` says that they are all
there is.
-/

/-- The bytes of instructions, one after the other. -/
def encodeAll (instrs : List Instr) : List UInt8 :=
  instrs.flatMap Instr.bytes

/-- The number of bytes that instructions occupy. -/
def codeSize : List Instr → Nat
  | [] =>
      0
  | instr :: rest =>
      instr.size + codeSize rest

@[simp] theorem codeSize_nil : codeSize [] = 0 :=
  rfl

@[simp] theorem codeSize_cons (instr : Instr) (rest : List Instr) :
    codeSize (instr :: rest) = instr.size + codeSize rest :=
  rfl

@[simp] theorem codeSize_append (first second : List Instr) :
    codeSize (first ++ second) = codeSize first + codeSize second := by
  induction first with
  | nil =>
      simp
  | cons instr rest inductionHypothesis =>
      simp [inductionHypothesis, Nat.add_assoc]

@[simp] theorem encodeAll_nil : encodeAll [] = [] :=
  rfl

@[simp] theorem encodeAll_cons (instr : Instr) (rest : List Instr) :
    encodeAll (instr :: rest) = instr.bytes ++ encodeAll rest := by
  simp [encodeAll]

@[simp] theorem encodeAll_append (first second : List Instr) :
    encodeAll (first ++ second) = encodeAll first ++ encodeAll second := by
  simp [encodeAll]

/-- Instructions that can be encoded fill their size. -/
theorem length_encodeAll
    {instrs : List Instr}
    (encodable : ∀ instr ∈ instrs, instr.Encodable) :
    (encodeAll instrs).length = codeSize instrs := by
  induction instrs with
  | nil =>
      rfl
  | cons instr rest inductionHypothesis =>
      have restLength := inductionHypothesis fun other member =>
        encodable other (List.mem_cons_of_mem _ member)
      have headLength := Instr.length_bytes (encodable instr (by simp))
      rw [encodeAll_cons, List.length_append, headLength, restLength,
        codeSize_cons]

/-- Instructions that follow each other, with the offsets they begin at. -/
def linesFrom (offset : Nat) : List Instr → List Line
  | [] =>
      []
  | instr :: rest =>
      ⟨offset, instr⟩ :: linesFrom (offset + instr.size) rest

@[simp] theorem linesFrom_append (offset : Nat) (first second : List Instr) :
    linesFrom offset (first ++ second) =
      linesFrom offset first ++
        linesFrom (offset + codeSize first) second := by
  induction first generalizing offset with
  | nil =>
      rfl
  | cons instr rest inductionHypothesis =>
      simp [linesFrom, inductionHypothesis, Nat.add_assoc]

@[simp] theorem map_instr_linesFrom (offset : Nat) (instrs : List Instr) :
    (linesFrom offset instrs).map Line.instr = instrs := by
  induction instrs generalizing offset with
  | nil =>
      rfl
  | cons instr rest inductionHypothesis =>
      rw [linesFrom, List.map_cons, inductionHypothesis]

@[simp] theorem length_linesFrom (offset : Nat) (instrs : List Instr) :
    (linesFrom offset instrs).length = instrs.length := by
  rw [← List.length_map Line.instr, map_instr_linesFrom]

/-- The instruction of a line stands behind the instructions that end where the
line begins. -/
theorem exists_split_of_line
    {offset index : Nat} {instrs : List Instr} {line : Line}
    (found : (linesFrom offset instrs)[index]? = some line) :
    ∃ leading trailing,
      instrs = leading ++ line.instr :: trailing ∧
        leading.length = index ∧
          line.offset = offset + codeSize leading := by
  induction instrs generalizing offset index with
  | nil =>
      cases found
  | cons instr rest inductionHypothesis =>
      cases index with
      | zero =>
          cases found
          exact ⟨[], rest, rfl, rfl, rfl⟩
      | succ index =>
          obtain ⟨leading, trailing, rfl, rfl, begins⟩ :=
            inductionHypothesis found
          refine ⟨instr :: leading, trailing, rfl, rfl, ?_⟩
          rw [begins, codeSize_cons, Nat.add_assoc]

/-- An instruction that takes the place of another of its size changes no line
but its own. -/
theorem linesFrom_replaced
    (leading trailing : List Instr) {old new : Instr}
    (sameSize : new.size = old.size) :
    linesFrom 0 (leading ++ new :: trailing) =
      (linesFrom 0 (leading ++ old :: trailing)).set leading.length
        ⟨codeSize leading, new⟩ := by
  simp [linesFrom, sameSize]

/-- A line lies between the first and the last byte of the instructions. -/
theorem bounds_of_mem_linesFrom
    {offset : Nat} {instrs : List Instr} {line : Line}
    (member : line ∈ linesFrom offset instrs) :
    offset ≤ line.offset ∧
      line.offset + line.instr.size ≤ offset + codeSize instrs := by
  induction instrs generalizing offset with
  | nil =>
      cases member
  | cons instr rest inductionHypothesis =>
      rw [codeSize_cons]
      rcases List.mem_cons.mp member with atHead | inRest
      · subst atHead
        exact ⟨Nat.le_refl _, by simp⟩
      · have bounds := inductionHypothesis inRest
        omega

/-- Every byte of the instructions belongs to the line of one of them. -/
theorem exists_line_of_lt
    {offset place : Nat} {instrs : List Instr}
    (atOrBehind : offset ≤ place)
    (before : place < offset + codeSize instrs) :
    ∃ line ∈ linesFrom offset instrs,
      line.offset ≤ place ∧ place < line.offset + line.instr.size := by
  induction instrs generalizing offset with
  | nil =>
      rw [codeSize_nil] at before
      omega
  | cons instr rest inductionHypothesis =>
      by_cases inHead : place < offset + instr.size
      · exact ⟨⟨offset, instr⟩, List.mem_cons_self, atOrBehind, inHead⟩
      · rw [codeSize_cons, ← Nat.add_assoc] at before
        obtain ⟨line, member, bounds⟩ :=
          inductionHypothesis (Nat.le_of_not_lt inHead) before
        exact ⟨line, List.mem_cons_of_mem _ member, bounds⟩

/-- Instructions begin at increasing offsets. -/
theorem pairwise_linesFrom (offset : Nat) (instrs : List Instr) :
    (linesFrom offset instrs).Pairwise (·.offset < ·.offset) := by
  induction instrs generalizing offset with
  | nil =>
      exact .nil
  | cons instr rest inductionHypothesis =>
      refine List.pairwise_cons.mpr ⟨?_, inductionHypothesis _⟩
      intro line member
      have bounds := bounds_of_mem_linesFrom member
      have positive := instr.size_pos
      change offset < line.offset
      omega

namespace Code

/-- Instructions stand one after the other from an offset of the code on. -/
structure Holds (code : Code) (offset : Nat) (instrs : List Instr) : Prop where
  encodable : ∀ instr ∈ instrs, instr.Encodable
  placed : ∃ rest, code.bytes.toList.drop offset = encodeAll instrs ++ rest

/-- The code is exactly these instructions. -/
structure Consists (code : Code) (instrs : List Instr) : Prop where
  encodable : ∀ instr ∈ instrs, instr.Encodable
  bytes : code.bytes.toList = encodeAll instrs

namespace Holds

variable {code : Code} {offset : Nat} {instr : Instr}
variable {first second rest : List Instr}

/-- Leading instructions stand where all of them stand. -/
theorem left (holds : code.Holds offset (first ++ second)) :
    code.Holds offset first := by
  obtain ⟨encodable, after, placed⟩ := holds
  refine ⟨fun other member => encodable other (by simp [member]),
    encodeAll second ++ after, ?_⟩
  rw [placed, encodeAll_append, List.append_assoc]

/-- Trailing instructions stand behind the leading ones. -/
theorem right (holds : code.Holds offset (first ++ second)) :
    code.Holds (offset + codeSize first) second := by
  obtain ⟨encodable, after, placed⟩ := holds
  refine ⟨fun other member => encodable other (by simp [member]),
    after, ?_⟩
  have firstLength :=
    length_encodeAll fun other member =>
      encodable other (List.mem_append_left second member)
  rw [← List.drop_drop, placed, encodeAll_append, List.append_assoc,
    List.drop_left' firstLength]

/-- The instructions after the first one stand behind it. -/
theorem tail (holds : code.Holds offset (instr :: rest)) :
    code.Holds (offset + instr.size) rest := by
  have behind : code.Holds (offset + codeSize [instr]) rest :=
    right (List.singleton_append ▸ holds)
  simpa using behind

/-- The first of the instructions is fetched. -/
theorem fetch (holds : code.Holds offset (instr :: rest)) :
    code.fetch offset = .instr instr (offset + instr.size) := by
  obtain ⟨encodable, after, placed⟩ := holds
  rw [encodeAll_cons, List.append_assoc] at placed
  exact fetch_of_drop (encodable instr (by simp)) placed

/-- Every one of the instructions is fetched at its offset. -/
theorem fetch_of_mem
    {instrs : List Instr} {line : Line}
    (holds : code.Holds offset instrs)
    (member : line ∈ linesFrom offset instrs) :
    code.fetch line.offset =
      .instr line.instr (line.offset + line.instr.size) := by
  induction instrs generalizing offset with
  | nil =>
      cases member
  | cons head others inductionHypothesis =>
      rcases List.mem_cons.mp member with atHead | inRest
      · subst atHead
        exact holds.fetch
      · exact inductionHypothesis holds.tail inRest

end Holds

namespace Consists

variable {code : Code} {instrs : List Instr}

/-- The instructions of the code stand at its start. -/
theorem holds (consists : code.Consists instrs) : code.Holds 0 instrs :=
  ⟨consists.encodable, [], by simp [consists.bytes]⟩

/-- The code is as long as its instructions. -/
theorem size_eq (consists : code.Consists instrs) :
    code.size = codeSize instrs := by
  rw [size, ← Array.length_toList, consists.bytes,
    length_encodeAll consists.encodable]

/-- There is nothing at the end of the code. -/
theorem fetch_end (consists : code.Consists instrs) :
    code.fetch (codeSize instrs) = .past := by
  have absent : code.bytes[codeSize instrs]? = none := by
    rw [Array.getElem?_eq_none_iff, ← consists.size_eq]
    exact Nat.le_refl _
  simp [fetch, absent]

end Consists

/-- A listing goes on behind the instructions that stand at an offset. -/
theorem listFrom_of_holds
    {code : Code} {offset : Nat} {instrs : List Instr}
    (lines : Array Line)
    (holds : code.Holds offset instrs) :
    code.listFrom offset lines =
      code.listFrom (offset + codeSize instrs)
        (lines ++ (linesFrom offset instrs).toArray) := by
  induction instrs generalizing offset lines with
  | nil =>
      simp [linesFrom]
  | cons instr rest inductionHypothesis =>
      rw [listFrom_of_instr lines holds.fetch,
        inductionHypothesis _ holds.tail, codeSize_cons, ← Nat.add_assoc]
      simp [linesFrom]

/-- The listing of code that was put together from instructions. -/
theorem Consists.listing_eq
    {code : Code} {instrs : List Instr}
    (consists : code.Consists instrs) :
    code.listing = ⟨(linesFrom 0 instrs).toArray, none⟩ := by
  rw [listing, listFrom_of_holds #[] consists.holds, Nat.zero_add,
    listFrom_of_past _ consists.fetch_end, Array.empty_append]

end Code

end StackLang
