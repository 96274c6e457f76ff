import MinCpuForth.Python.Str

/-!
# Opcodes, instructions and parsed lines

The data that crosses the boundaries of the assembler and the emulator (`domain/opcode.py` and
`domain/dtos.py`).
-/

namespace MinCpuForth.Domain
open Python

/-- The 17 opcodes. -/
inductive Opcode where
  | LOAD | STORE | ADD | SUB | JMP | JZ | JS | PUSH_D | POP_D | PUSH_R | POP_R
  | AND | OR | INVERT | IN | OUT | HALT
  deriving DecidableEq, Repr

/-- The members of the enumeration, in order. -/
def Opcode.all : List Opcode :=
  [.LOAD, .STORE, .ADD, .SUB, .JMP, .JZ, .JS, .PUSH_D, .POP_D, .PUSH_R, .POP_R,
    .AND, .OR, .INVERT, .IN, .OUT, .HALT]

/-- The text of an opcode (its `StrEnum` value). -/
def Opcode.value : Opcode → PyStr
  | .LOAD => "LOAD" | .STORE => "STORE" | .ADD => "ADD" | .SUB => "SUB"
  | .JMP => "JMP" | .JZ => "JZ" | .JS => "JS"
  | .PUSH_D => "PUSH_D" | .POP_D => "POP_D" | .PUSH_R => "PUSH_R" | .POP_R => "POP_R"
  | .AND => "AND" | .OR => "OR" | .INVERT => "INVERT"
  | .IN => "IN" | .OUT => "OUT" | .HALT => "HALT"

/-- Which field of an instruction an assembler operand populates. -/
inductive InstructionField where
  | A | B | OFFSET
  deriving DecidableEq, Repr

/-- How the assembler resolves an operand token. -/
inductive OperandKind where
  | REGISTER | REGISTER_OR_IMMEDIATE | OFFSET
  deriving DecidableEq, Repr

/-- A `str | int` operand. -/
inductive Operand where
  | reg (name : PyStr)
  | imm (value : Int)
  deriving DecidableEq, Repr

/-- One decoded instruction. -/
structure InstructionDto where
  opcode : Opcode
  a : Option PyStr := none
  b : Option Operand := none
  offset : Option Int := none
  deriving DecidableEq, Repr

namespace InstructionDto

def LOAD (dst addr : PyStr) : InstructionDto := { opcode := .LOAD, a := dst, b := some (.reg addr) }
def STORE (addr value : PyStr) : InstructionDto :=
  { opcode := .STORE, a := addr, b := some (.reg value) }
def ADD (dst : PyStr) (src : Operand) : InstructionDto := { opcode := .ADD, a := dst, b := src }
def SUB (dst : PyStr) (src : Operand) : InstructionDto := { opcode := .SUB, a := dst, b := src }
def AND (dst : PyStr) (src : Operand) : InstructionDto := { opcode := .AND, a := dst, b := src }
def OR (dst : PyStr) (src : Operand) : InstructionDto := { opcode := .OR, a := dst, b := src }
def INVERT (reg : PyStr) : InstructionDto := { opcode := .INVERT, a := reg }
def JMP (target : PyStr) : InstructionDto := { opcode := .JMP, a := target }
def JZ (tested : PyStr) (offset : Int) : InstructionDto :=
  { opcode := .JZ, a := tested, offset := offset }
def JS (tested : PyStr) (offset : Int) : InstructionDto :=
  { opcode := .JS, a := tested, offset := offset }
def PUSH_D (reg : PyStr) : InstructionDto := { opcode := .PUSH_D, a := reg }
def POP_D (reg : PyStr) : InstructionDto := { opcode := .POP_D, a := reg }
def PUSH_R (reg : PyStr) : InstructionDto := { opcode := .PUSH_R, a := reg }
def POP_R (reg : PyStr) : InstructionDto := { opcode := .POP_R, a := reg }
def IN (reg : PyStr) : InstructionDto := { opcode := .IN, a := reg }
def OUT (reg : PyStr) : InstructionDto := { opcode := .OUT, a := reg }
def HALT : InstructionDto := { opcode := .HALT }

end InstructionDto

/-- A single operand slot in an opcode's signature. -/
structure OperandSpec where
  field : InstructionField
  kind : OperandKind
  deriving DecidableEq, Repr

/-- One parsed source line; `address` is `-1` until the resolver fills it in. -/
structure LineDto where
  lineno : Nat
  labels : List PyStr
  mnemonic : Option PyStr
  operands : List PyStr
  address : Int := -1
  deriving DecidableEq, Repr

/-- A copy of the line with its program address recorded. -/
def LineDto.with_address (line : LineDto) (address : Int) : LineDto :=
  { line with address := address }

/-- A label table: name to program index, in the order of definition. -/
abbrev Labels := List (PyStr × Int)

/-- Parsed lines with their addresses assigned, plus the label table. -/
structure ResolvedProgramDto where
  lines : List LineDto
  labels : Labels
  deriving DecidableEq, Repr

/-- A runnable instruction stream plus its label table. -/
structure AssemblyDto where
  program : List InstructionDto
  labels : Labels
  deriving DecidableEq, Repr

end MinCpuForth.Domain
