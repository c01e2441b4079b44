import ArmSimulator.DataAbort
import ArmSimulator.EntryFrame

/-! Single transfers that abort. The base of the pre- and post-indexed forms is
written back before the access, and nothing takes it back when the access fails. -/
namespace ArmSimulator

/-- LDR, STR, LDRB and STRB, or STRH, LDRH, LDRSB and LDRSH. -/
structure SingleTransferWord (ins : Word) : Prop where
  operation : instructionGetHandler ins = some .armLoadStore ∨
    instructionGetHandler ins = some .armLoadStoreMiscellaneous ∧
      (codage3Bits ins 20 6 5 = 1#32 ∨ codage3Bits ins 20 6 5 = 5#32 ∨
        codage3Bits ins 20 6 5 = 6#32 ∨ codage3Bits ins 20 6 5 = 7#32)
  rn : getReg ins 19 16 ≠ Reg.pc
  rd : getReg ins 15 12 ≠ Reg.pc

section Handlers

variable {h : Platform} {junk : Word} {p : ArmCore} {ins : Word} {rd : Reg} {address : Word}

section Halfwords

variable (single : codage3Bits ins 20 6 5 = 1#32 ∨ codage3Bits ins 20 6 5 = 5#32 ∨
  codage3Bits ins 20 6 5 = 6#32 ∨ codage3Bits ins 20 6 5 = 7#32)

include single

end Halfwords

end Handlers

section Steps

variable {h : Platform} {junk : Word} {p : ArmCore} {ins : Word}

theorem SingleTransferWord.writesBack (word : SingleTransferWord ins) :
    writesBack ins = !(getBit ins 24 && !getBit ins 21) := by
  refine if_neg ?_
  rcases word.operation with plain | ⟨misc, _⟩
  · simp [plain]
  · simp [misc]

end Steps

end ArmSimulator
