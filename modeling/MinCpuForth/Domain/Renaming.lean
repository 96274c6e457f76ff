import MinCpuForth.Domain.Errors
import MinCpuForth.Domain.Instruction

/-!
# Renamed instructions, lines and programs

What becomes of the data of the assembler and the emulator when names are replaced, both those of
registers and those of labels.
-/

namespace MinCpuForth.Domain
open Python

variable (ρ : PyStr → PyStr)

/-- The operand with its register renamed. -/
def Operand.rename : Operand → Operand
  | .reg name => .reg (ρ name)
  | .imm value => .imm value

/-- The instruction with its registers renamed. -/
def InstructionDto.rename (i : InstructionDto) : InstructionDto :=
  { i with a := i.a.map ρ, b := i.b.map (Operand.rename ρ) }

/-- The registers that an instruction names. -/
def InstructionDto.Names (i : InstructionDto) (name : PyStr) : Prop :=
  i.a = some name ∨ i.b = some (.reg name)

/-- The line with its labels and operands renamed. -/
def LineDto.rename (line : LineDto) : LineDto :=
  { line with labels := line.labels.map ρ, operands := line.operands.map ρ }

/-- The label table with its labels renamed. -/
def Labels.rename (labels : Labels) : Labels := labels.map fun l => (ρ l.1, l.2)

/-- The resolved program with its names replaced. -/
def ResolvedProgramDto.rename (resolved : ResolvedProgramDto) : ResolvedProgramDto :=
  { lines := resolved.lines.map (LineDto.rename ρ), labels := Labels.rename ρ resolved.labels }

/-- The assembly with its registers and labels renamed. -/
def AssemblyDto.rename (assembly : AssemblyDto) : AssemblyDto :=
  { program := assembly.program.map (InstructionDto.rename ρ)
    labels := Labels.rename ρ assembly.labels }

/-- The error with the names that its message quotes replaced. -/
def AssemblerError.rename : AssemblerError → AssemblerError
  | .duplicateLabel lineno name => .duplicateLabel lineno (ρ name)
  | .expectedRegister lineno token => .expectedRegister lineno (ρ token)
  | .undefinedLabel lineno token => .undefinedLabel lineno (ρ token)
  | .expectedConstant lineno token => .expectedConstant lineno (ρ token)
  | error => error

lemma Operand.rename_id (o : Operand) : o.rename id = o := by
  cases o with
  | reg name => rfl
  | imm value => rfl

lemma InstructionDto.rename_id (i : InstructionDto) : i.rename id = i := by
  obtain ⟨op, a, b, off⟩ := i
  have same : Operand.rename id = id := funext Operand.rename_id
  simp [InstructionDto.rename, same]

end MinCpuForth.Domain
