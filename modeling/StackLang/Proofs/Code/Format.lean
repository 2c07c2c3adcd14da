import StackLang.Proofs.Code.Split

namespace StackLang

/-!
# The format of code

Instructions and bytes determine each other. Instructions that were written one
after the other are listed again as they were, and bytes that a listing goes
through to the end are those of the listed instructions.
-/

namespace Instr

/-- Instructions are encoded one by one exactly when each of them can be. -/
theorem mapM_encode_eq_ok_iff
    {instrs : List Instr} {encoded : List (List UInt8)} :
    instrs.mapM encode = .ok encoded ↔
      (∀ instr ∈ instrs, instr.Encodable) ∧ instrs.map bytes = encoded := by
  induction instrs generalizing encoded with
  | nil =>
      simp [pure, Except.pure]
  | cons instr rest inductionHypothesis =>
      rw [List.mapM_cons, List.forall_mem_cons, List.map_cons]
      cases accepted : instr.encode with
      | error error =>
          have refused : ¬ instr.Encodable := by
            rintro ⟨written, isWritten⟩
            rw [accepted] at isWritten
            cases isWritten
          simp [refused, bind, Except.bind]
      | ok written =>
          have encodable : instr.Encodable := ⟨written, accepted⟩
          rw [bytes_of_encode accepted]
          cases others : rest.mapM encode with
          | error error =>
              have noneWritten (encodedRest : List (List UInt8)) :
                  ¬ ((∀ other ∈ rest, other.Encodable) ∧
                    rest.map bytes = encodedRest) := by
                rw [← inductionHypothesis, others]
                nofun
              simp only [bind, Except.bind]
              refine ⟨nofun, ?_⟩
              rintro ⟨⟨_, restEncodable⟩, _⟩
              exact (noneWritten _ ⟨restEncodable, rfl⟩).elim
          | ok writtenRest =>
              obtain ⟨restEncodable, rfl⟩ := inductionHypothesis.mp others
              simp only [bind, Except.bind, pure, Except.pure,
                Except.ok.injEq]
              exact ⟨fun isEncoded =>
                ⟨⟨encodable, restEncodable⟩, isEncoded⟩, And.right⟩

end Instr

namespace Code

variable {code : Code}

/-- Code whose listing comes to the end consists of instructions. -/
theorem exists_consists_of_complete
    (complete : code.listing.fault = none) :
    ∃ instrs, code.Consists instrs := by
  obtain ⟨instrs, rest, splits⟩ := code.exists_splits
  rw [splits.listing_eq] at complete
  obtain rfl := undecodableReason?_eq_none_iff.mp complete
  exact ⟨instrs, splits.consists⟩

/-- Code consists of the instructions that a complete listing shows, and of no
others. -/
theorem consists_iff_listing {instrs : List Instr} :
    code.Consists instrs ↔
      code.listing.fault = none ∧
        code.listing.lines.toList.map Line.instr = instrs := by
  have shown {instrs : List Instr} (consists : code.Consists instrs) :
      code.listing.lines.toList.map Line.instr = instrs := by
    rw [consists.listing_eq]
    exact map_instr_linesFrom 0 instrs
  constructor
  case mp =>
    intro consists
    exact ⟨by rw [consists.listing_eq], shown consists⟩
  case mpr =>
    rintro ⟨complete, rfl⟩
    obtain ⟨instrs, consists⟩ := exists_consists_of_complete complete
    rwa [shown consists]

/-- Code consists of one list of instructions at most. -/
theorem Consists.unique
    {first second : List Instr}
    (consists : code.Consists first) (others : code.Consists second) :
    first = second :=
  (consists_iff_listing.mp consists).2.symm.trans
    (consists_iff_listing.mp others).2

end Code

/-- The format is a bijection. Instructions are encoded exactly when each has
the operands that its layout asks for, and these fit; and a listing goes through
bytes to the end and shows some instructions exactly when these can be encoded,
and the bytes are theirs. -/
theorem listing_inverts_encoding :
    (∀ instr : Instr,
      (∃ encoded, instr.encode = .ok encoded) ↔
        instr.operands.length = instr.opcode.operandWidths.length ∧
          ∀ pair ∈ instr.operands.zip instr.opcode.operandWidths,
            pair.1 < 256 ^ pair.2) ∧
      ∀ (code : Code) (instrs : List Instr),
        (code.listing.fault = none ∧
            code.listing.lines.toList.map Line.instr = instrs) ↔
          ∃ encoded,
            instrs.mapM Instr.encode = .ok encoded ∧
              code.bytes.toList = encoded.flatten := by
  refine ⟨fun instr => Instr.encodable_iff, fun code instrs => ?_⟩
  rw [← Code.consists_iff_listing]
  constructor
  case mp =>
    rintro ⟨encodable, isEncoded⟩
    exact ⟨_, Instr.mapM_encode_eq_ok_iff.mpr ⟨encodable, rfl⟩, isEncoded⟩
  case mpr =>
    rintro ⟨encoded, accepted, isEncoded⟩
    obtain ⟨encodable, rfl⟩ := Instr.mapM_encode_eq_ok_iff.mp accepted
    exact ⟨encodable, isEncoded⟩

/-- Bytes that end within an instruction are not listed to the end. -/
example :
    (Code.mk #[1, 0, 1]).listing.fault =
      some (.truncated "OpConstant" 2 1) := by
  cbv

end StackLang
