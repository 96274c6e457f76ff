import MinCpuForth.Assembler.Specs
import MinCpuForth.Domain.Errors
import MinCpuForth.Python.Int

/-!
# Third stage: the instruction stream

`services/assembler/emitter.py`.
-/

namespace MinCpuForth.Assembler
open Python Domain

variable [UnicodeData]

/-- A register name: an identifier, never an integer. -/
def resolveRegister (token : PyStr) (line : LineDto) : Except AssemblerError PyStr :=
  if (int0 token).isSome || !isidentifier token then .error (.expectedRegister line.lineno token)
  else .ok token

/-- An integer, a label (its absolute index), or else a register. -/
def resolveRegOrImmediate (token : PyStr) (labels : Labels) (line : LineDto) :
    Except AssemblerError Operand :=
  match int0 token with
  | some literal => .ok (.imm literal)
  | none =>
    match labels.lookup token with
    | some index => .ok (.imm index)
    | none => return .reg (← resolveRegister token line)

/-- A branch offset: an integer, or the signed distance to a label. -/
def resolveOffset (token : PyStr) (labels : Labels) (line : LineDto) : Except AssemblerError Int :=
  match int0 token with
  | some literal => .ok literal
  | none =>
    match labels.lookup token with
    | some index => .ok (index - (line.address + 1))
    | none => .error (.undefinedLabel line.lineno token)

/-- An integer or a label's address. -/
def resolveConstant (token : PyStr) (labels : Labels) (line : LineDto) :
    Except AssemblerError Int :=
  match int0 token with
  | some literal => .ok literal
  | none =>
    match labels.lookup token with
    | some index => .ok index
    | none => .error (.expectedConstant line.lineno token)

/-- `SET r, c` as `SUB r, r` and `ADD r, c`. -/
def emitSet (line : LineDto) (labels : Labels) : Except AssemblerError (List InstructionDto) :=
  match line.operands with
  | [reg, const] => do
    let register ← resolveRegister reg line
    let value ← resolveConstant const labels line
    .ok [{ opcode := .SUB, a := register, b := some (.reg register) },
         { opcode := .ADD, a := register, b := some (.imm value) }]
  | operands => .error (.setOperandCount line.lineno operands.length)

/-- `MOV dst, src` as `SUB dst, dst` and `ADD dst, src`. -/
def emitMov (line : LineDto) : Except AssemblerError (List InstructionDto) :=
  match line.operands with
  | [dst, src] => do
    let dest ← resolveRegister dst line
    let source ← resolveRegister src line
    .ok [{ opcode := .SUB, a := dest, b := some (.reg dest) },
         { opcode := .ADD, a := dest, b := some (.reg source) }]
  | operands => .error (.movOperandCount line.lineno operands.length)

/-- Fills one field of the instruction from its token. -/
def fillOperand (labels : Labels) (line : LineDto) (instr : InstructionDto) (spec : OperandSpec)
    (token : PyStr) : Except AssemblerError InstructionDto :=
  match spec.kind with
  | .REGISTER => do
    let register ← resolveRegister token line
    match spec.field with
    | .A => .ok { instr with a := some register }
    | _ => .ok { instr with b := some (.reg register) }
  | .REGISTER_OR_IMMEDIATE => do
    let b ← resolveRegOrImmediate token labels line
    .ok { instr with b := some b }
  | .OFFSET => do
    let offset ← resolveOffset token labels line
    .ok { instr with offset := some offset }

/-- The loop over `zip(specs, line.operands, strict=True)`. -/
def fillOperands (labels : Labels) (line : LineDto) (instr : InstructionDto) :
    List (OperandSpec × PyStr) → Except AssemblerError InstructionDto
  | [] => .ok instr
  | (spec, token) :: rest => do
    let instr ← fillOperand labels line instr spec token
    fillOperands labels line instr rest

/-- `InstructionEmitter._emit_line`. -/
def emitLine (line : LineDto) (labels : Labels) : Except AssemblerError (List InstructionDto) :=
  match line.mnemonic with
  | none => .ok []
  | some mnemonic =>
    if mnemonic = SET_MNEMONIC then emitSet line labels
    else if mnemonic = MOV_MNEMONIC then emitMov line
    else
      match MNEMONICS.lookup mnemonic with
      | none => .error (.unknownMnemonic line.lineno mnemonic)
      | some opcode =>
        let specs := OPERAND_SPECS opcode
        if line.operands.length ≠ specs.length then
          .error (.operandCount line.lineno mnemonic specs.length line.operands.length)
        else do
          let instr ← fillOperands labels line { opcode := opcode } (specs.zip line.operands)
          .ok [instr]

/-- The loop of `emit`. -/
def emitLines (labels : Labels) : List LineDto → Except AssemblerError (List InstructionDto)
  | [] => .ok []
  | line :: lines => do
    let head ← emitLine line labels
    let program ← emitLines labels lines
    .ok (head ++ program)

/-- `InstructionEmitter.emit`. -/
def emit (resolved : ResolvedProgramDto) : Except AssemblerError (List InstructionDto) :=
  emitLines resolved.labels resolved.lines

end MinCpuForth.Assembler
