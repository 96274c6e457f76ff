import MinCpuForth.Assembler.Service
import MinCpuForth.Lib.Fallible

/-!
# What the emitter produces

Which instructions each kind of line turns into. Every one of them has the operands that its opcode
asks for.
-/

namespace MinCpuForth.Assembler
open Python Domain Lib.Fallible

/-- An instruction with the operands of its opcode. -/
inductive WellFormed : InstructionDto → Prop where
  | load (dst addr : PyStr) : WellFormed (.LOAD dst addr)
  | store (addr value : PyStr) : WellFormed (.STORE addr value)
  | add (dst : PyStr) (src : Operand) : WellFormed (.ADD dst src)
  | sub (dst : PyStr) (src : Operand) : WellFormed (.SUB dst src)
  | and (dst : PyStr) (src : Operand) : WellFormed (.AND dst src)
  | or (dst : PyStr) (src : Operand) : WellFormed (.OR dst src)
  | invert (reg : PyStr) : WellFormed (.INVERT reg)
  | jmp (target : PyStr) : WellFormed (.JMP target)
  | jz (tested : PyStr) (offset : Int) : WellFormed (.JZ tested offset)
  | js (tested : PyStr) (offset : Int) : WellFormed (.JS tested offset)
  | push_d (reg : PyStr) : WellFormed (.PUSH_D reg)
  | pop_d (reg : PyStr) : WellFormed (.POP_D reg)
  | push_r (reg : PyStr) : WellFormed (.PUSH_R reg)
  | pop_r (reg : PyStr) : WellFormed (.POP_R reg)
  | in (reg : PyStr) : WellFormed (.IN reg)
  | out (reg : PyStr) : WellFormed (.OUT reg)
  | halt : WellFormed .HALT

variable [UnicodeData] {labels : Labels} {line : LineDto}

/-- A register operand fills its field with a register name. -/
lemma fillOperand_register {instr instr' : InstructionDto} {field : InstructionField}
    {token : PyStr} (h : fillOperand labels line instr ⟨field, .REGISTER⟩ token = .ok instr') :
    ∃ name, instr' = match field with
      | .A => { instr with a := some name }
      | _ => { instr with b := some (.reg name) } := by
  simp only [fillOperand] at h
  obtain ⟨name, -, h⟩ := bind_eq_ok.mp h
  refine ⟨name, ?_⟩
  cases field <;> cases h <;> rfl

/-- A register-or-immediate operand fills `b`. -/
lemma fillOperand_regImm {instr instr' : InstructionDto} {field : InstructionField}
    {token : PyStr}
    (h : fillOperand labels line instr ⟨field, .REGISTER_OR_IMMEDIATE⟩ token = .ok instr') :
    ∃ o, instr' = { instr with b := some o } := by
  simp only [fillOperand] at h
  obtain ⟨o, -, h⟩ := bind_eq_ok.mp h
  cases h
  exact ⟨o, rfl⟩

/-- An offset operand fills the offset. -/
lemma fillOperand_offset {instr instr' : InstructionDto} {field : InstructionField} {token : PyStr}
    (h : fillOperand labels line instr ⟨field, .OFFSET⟩ token = .ok instr') :
    ∃ n, instr' = { instr with offset := some n } := by
  simp only [fillOperand] at h
  obtain ⟨n, -, h⟩ := bind_eq_ok.mp h
  cases h
  exact ⟨n, rfl⟩

/-- One operand is filled, then the others. -/
lemma fillOperands_cons {instr instr' : InstructionDto} {spec : OperandSpec} {token : PyStr}
    {rest : List (OperandSpec × PyStr)}
    (h : fillOperands labels line instr ((spec, token) :: rest) = .ok instr') :
    ∃ mid, fillOperand labels line instr spec token = .ok mid ∧
      fillOperands labels line mid rest = .ok instr' :=
  bind_eq_ok.mp h

/-- A line that emits an instruction of its own mnemonic. -/
lemma fillOperands_wellFormed {opcode : Opcode} {tokens : List PyStr} {instr : InstructionDto}
    (len : tokens.length = (OPERAND_SPECS opcode).length)
    (h : fillOperands labels line { opcode := opcode } ((OPERAND_SPECS opcode).zip tokens) =
      .ok instr) : WellFormed instr := by
  cases opcode with
  | HALT =>
    cases h
    exact .halt
  | LOAD | STORE =>
    obtain ⟨t, u, rfl⟩ := List.length_eq_two.mp len
    obtain ⟨mid, h₁, h₂⟩ := fillOperands_cons h
    obtain ⟨last, h₂, h₃⟩ := fillOperands_cons h₂
    obtain ⟨x, rfl⟩ := fillOperand_register h₁
    obtain ⟨y, rfl⟩ := fillOperand_register h₂
    cases h₃
    constructor
  | ADD | SUB | AND | OR =>
    obtain ⟨t, u, rfl⟩ := List.length_eq_two.mp len
    obtain ⟨mid, h₁, h₂⟩ := fillOperands_cons h
    obtain ⟨last, h₂, h₃⟩ := fillOperands_cons h₂
    obtain ⟨x, rfl⟩ := fillOperand_register h₁
    obtain ⟨o, rfl⟩ := fillOperand_regImm h₂
    cases h₃
    constructor
  | JZ | JS =>
    obtain ⟨t, u, rfl⟩ := List.length_eq_two.mp len
    obtain ⟨mid, h₁, h₂⟩ := fillOperands_cons h
    obtain ⟨last, h₂, h₃⟩ := fillOperands_cons h₂
    obtain ⟨x, rfl⟩ := fillOperand_register h₁
    obtain ⟨n, rfl⟩ := fillOperand_offset h₂
    cases h₃
    constructor
  | INVERT | JMP | PUSH_D | POP_D | PUSH_R | POP_R | IN | OUT =>
    obtain ⟨t, rfl⟩ := List.length_eq_one_iff.mp len
    obtain ⟨mid, h₁, h₂⟩ := fillOperands_cons h
    obtain ⟨x, rfl⟩ := fillOperand_register h₁
    cases h₂
    constructor

/-- What a `SET` line emits. -/
lemma emitSet_ok {program : List InstructionDto} (h : emitSet line labels = .ok program) :
    ∃ reg const register value, line.operands = [reg, const] ∧
      resolveRegister reg line = .ok register ∧ resolveConstant const labels line = .ok value ∧
      program = [.SUB register (.reg register), .ADD register (.imm value)] := by
  unfold emitSet at h
  split at h
  · rename_i reg const ops
    obtain ⟨register, r, h⟩ := bind_eq_ok.mp h
    obtain ⟨value, c, h⟩ := bind_eq_ok.mp h
    cases h
    exact ⟨reg, const, register, value, ops, r, c, rfl⟩
  · cases h

/-- What a `MOV` line emits. -/
lemma emitMov_ok {program : List InstructionDto} (h : emitMov line = .ok program) :
    ∃ dst src dest source, line.operands = [dst, src] ∧ resolveRegister dst line = .ok dest ∧
      resolveRegister src line = .ok source ∧
      program = [.SUB dest (.reg dest), .ADD dest (.reg source)] := by
  unfold emitMov at h
  split at h
  · rename_i dst src ops
    obtain ⟨dest, r, h⟩ := bind_eq_ok.mp h
    obtain ⟨source, c, h⟩ := bind_eq_ok.mp h
    cases h
    exact ⟨dst, src, dest, source, ops, r, c, rfl⟩
  · cases h

/-- What a line can emit: nothing, a pseudo-op's two instructions, or one instruction. -/
lemma emitLine_cases {program : List InstructionDto} (h : emitLine line labels = .ok program) :
    (line.mnemonic = none ∧ program = []) ∨
      (line.mnemonic = some SET_MNEMONIC ∧ emitSet line labels = .ok program) ∨
      (line.mnemonic = some MOV_MNEMONIC ∧ emitMov line = .ok program) ∨
      ∃ mnemonic opcode instr, line.mnemonic = some mnemonic ∧ mnemonic ≠ SET_MNEMONIC ∧
        mnemonic ≠ MOV_MNEMONIC ∧ MNEMONICS.lookup mnemonic = some opcode ∧
        line.operands.length = (OPERAND_SPECS opcode).length ∧
        fillOperands labels line { opcode := opcode } ((OPERAND_SPECS opcode).zip line.operands) =
          .ok instr ∧ program = [instr] := by
  unfold emitLine at h
  split at h
  · rename_i none
    cases h
    exact .inl ⟨none, rfl⟩
  · rename_i mnemonic some
    split at h
    · rename_i set
      exact .inr (.inl ⟨set ▸ some, h⟩)
    · rename_i notSet
      split at h
      · rename_i mov
        exact .inr (.inr (.inl ⟨mov ▸ some, h⟩))
      · rename_i notMov
        split at h
        · cases h
        · rename_i opcode found
          dsimp only at h
          split at h
          · cases h
          · rename_i len
            obtain ⟨instr, r, h⟩ := bind_eq_ok.mp h
            cases h
            exact .inr (.inr (.inr ⟨mnemonic, opcode, instr, some, notSet, notMov, found,
              not_not.mp len, r, rfl⟩))

/-- Every line emits well-formed instructions. -/
lemma emitLine_wellFormed {program : List InstructionDto} (h : emitLine line labels = .ok program) :
    ∀ instr ∈ program, WellFormed instr := by
  rcases emitLine_cases h with ⟨-, rfl⟩ | ⟨-, h⟩ | ⟨-, h⟩ | ⟨_, _, instr, -, -, -, -, len, fill, rfl⟩
  · simp
  · obtain ⟨_, _, r, v, -, -, -, rfl⟩ := emitSet_ok h
    simp only [List.forall_mem_cons, List.not_mem_nil, false_imp_iff, implies_true, and_true]
    exact ⟨.sub _ _, .add _ _⟩
  · obtain ⟨_, _, d, r, -, -, -, rfl⟩ := emitMov_ok h
    simp only [List.forall_mem_cons, List.not_mem_nil, false_imp_iff, implies_true, and_true]
    exact ⟨.sub _ _, .add _ _⟩
  · intro i mem
    rw [List.mem_singleton.mp mem]
    exact fillOperands_wellFormed len fill

/-- One line is emitted, then the others. -/
lemma emitLines_cons {lines : List LineDto} {program : List InstructionDto}
    (h : emitLines labels (line :: lines) = .ok program) :
    ∃ head rest, emitLine line labels = .ok head ∧ emitLines labels lines = .ok rest ∧
      program = head ++ rest := by
  obtain ⟨head, r, h⟩ := bind_eq_ok.mp h
  obtain ⟨rest, r', h⟩ := bind_eq_ok.mp h
  cases h
  exact ⟨head, rest, r, r', rfl⟩

/-- Every program is made of well-formed instructions. -/
lemma emitLines_wellFormed {lines : List LineDto} {program : List InstructionDto}
    (h : emitLines labels lines = .ok program) : ∀ instr ∈ program, WellFormed instr := by
  induction lines generalizing program with
  | nil =>
    cases h
    simp
  | cons line lines ih =>
    obtain ⟨head, rest, h₁, h₂, rfl⟩ := emitLines_cons h
    intro i mem
    rcases List.mem_append.mp mem with mem | mem
    · exact emitLine_wellFormed h₁ i mem
    · exact ih h₂ i mem

/-- The stages of an assembly that returns. -/
lemma assemble_ok {source : PyStr} {assembly : AssemblyDto} (h : assemble source = .ok assembly) :
    ∃ lines resolved, parse source = .ok lines ∧ resolve lines = .ok resolved ∧
      emitLines resolved.labels resolved.lines = .ok assembly.program ∧
      assembly.labels = resolved.labels := by
  obtain ⟨lines, p, h⟩ := bind_eq_ok.mp h
  obtain ⟨resolved, r, h⟩ := bind_eq_ok.mp h
  obtain ⟨program, e, h⟩ := bind_eq_ok.mp h
  cases h
  exact ⟨lines, resolved, p, r, e, rfl⟩

/-- Every assembled program is made of well-formed instructions. -/
lemma assemble_wellFormed {source : PyStr} {assembly : AssemblyDto}
    (h : assemble source = .ok assembly) : ∀ instr ∈ assembly.program, WellFormed instr := by
  obtain ⟨_, _, -, -, e, -⟩ := assemble_ok h
  exact emitLines_wellFormed e

end MinCpuForth.Assembler
