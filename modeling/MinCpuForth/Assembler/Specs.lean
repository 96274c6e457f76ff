import MinCpuForth.Domain.Instruction

/-!
# The operand signatures

Each opcode's operand slots and the constants of the pseudo-ops (`services/assembler/specs.py`).
-/

namespace MinCpuForth.Assembler
open Python Domain

private abbrev aReg : OperandSpec := ⟨.A, .REGISTER⟩
private abbrev bReg : OperandSpec := ⟨.B, .REGISTER⟩
private abbrev bRegImm : OperandSpec := ⟨.B, .REGISTER_OR_IMMEDIATE⟩
private abbrev offOffset : OperandSpec := ⟨.OFFSET, .OFFSET⟩

/-- The signature of an opcode. -/
def OPERAND_SPECS : Opcode → List OperandSpec
  | .LOAD => [aReg, bReg]
  | .STORE => [aReg, bReg]
  | .ADD => [aReg, bRegImm]
  | .SUB => [aReg, bRegImm]
  | .AND => [aReg, bRegImm]
  | .OR => [aReg, bRegImm]
  | .INVERT => [aReg]
  | .JMP => [aReg]
  | .JZ => [aReg, offOffset]
  | .JS => [aReg, offOffset]
  | .PUSH_D => [aReg]
  | .POP_D => [aReg]
  | .PUSH_R => [aReg]
  | .POP_R => [aReg]
  | .IN => [aReg]
  | .OUT => [aReg]
  | .HALT => []

/-- Mnemonic text to opcode. -/
def MNEMONICS : List (PyStr × Opcode) := Opcode.all.map fun opcode => (opcode.value, opcode)

def SET_MNEMONIC : PyStr := "SET"
def MOV_MNEMONIC : PyStr := "MOV"

/-- How many instructions a pseudo-op expands to. -/
def PSEUDO_OP_SIZES : List (PyStr × Nat) := [(SET_MNEMONIC, 2), (MOV_MNEMONIC, 2)]

end MinCpuForth.Assembler
