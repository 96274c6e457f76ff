import MinCpuForth.Adapters.DataPath
import MinCpuForth.Domain.Instruction
import MinCpuForth.Lib.Machine
import Mathlib.Data.Int.Bitwise
import Mathlib.Logic.Function.Basic

/-!
# The emulator

`services/emulator.py`: the fetch-decode-execute machine, one handler for each opcode. The state is
what the service owns together with what it reaches through its ports; a register that was never
written reads as zero. A step that raises keeps what it has done.
-/

namespace MinCpuForth.Emulator
open Python Domain Adapters Lib

/-- The emulator, its data path and its input and output devices. -/
structure EmulatorService where
  registers : PyStr → ℤ
  data : DataPath
  char_input : List ℤ
  char_output : List ℤ
  program : List InstructionDto
  pc : ℤ
  halted : Bool

/-- Something that the emulator does. -/
abbrev Action (α : Type) := EStateM PyError EmulatorService α

namespace EmulatorService

/-- Loads a program, resetting the program counter and the halted flag. -/
def load (s : EmulatorService) (program : List InstructionDto) : EmulatorService :=
  { s with program := program, pc := 0, halted := false }

/-- Reads a register. -/
def readRegister (name : PyStr) : Action ℤ := fun s => .ok (s.registers name) s

/-- Writes a register. -/
def writeRegister (name : PyStr) (value : ℤ) : Action Unit := fun s =>
  .ok () { s with registers := Function.update s.registers name value }

/-- Uses the data path. -/
def onData {α : Type} (op : EStateM PyError DataPath α) : Action α := fun s =>
  match op s.data with
  | .ok a d => .ok a { s with data := d }
  | .error e d => .error e { s with data := d }

/-- `char_input.read()`. -/
def readInput : Action ℤ := fun s =>
  match s.char_input with
  | [] => .error .inputExhausted s
  | c :: cs => .ok c { s with char_input := cs }

/-- `char_output.write(value)`. -/
def writeOutput (value : ℤ) : Action Unit := fun s =>
  .ok () { s with char_output := s.char_output ++ [value] }

/-- `pc := target`. -/
def jump (target : ℤ) : Action Unit := fun s => .ok () { s with pc := target }

/-- `pc += offset`. -/
def branch (offset : ℤ) : Action Unit := fun s => .ok () { s with pc := s.pc + offset }

/-- Narrows the `a` operand, which must be a register name. -/
def requireA (instr : InstructionDto) : Action PyStr :=
  match instr.a with
  | some name => return name
  | none => throw (.expectedRegister none)

/-- Narrows an operand that must be a register name. The message shows the operand; that CPython
    shows no integer of more than 4300 digits is not modelled. -/
def requireRegister : Option Operand → Action PyStr
  | some (.reg name) => return name
  | some (.imm value) => throw (.expectedRegister (some value))
  | none => throw (.expectedRegister none)

/-- Narrows a branch offset. -/
def requireOffset : Option ℤ → Action ℤ
  | some offset => return offset
  | none => throw .missingOffset

/-- The value of a `b` operand: immediate, or else a register's. -/
def operandValue : Option Operand → Action ℤ
  | some (.imm value) => return value
  | operand => do readRegister (← requireRegister operand)

def exec_load (instr : InstructionDto) : Action Unit := do
  let dst ← requireA instr
  let addr_reg ← requireRegister instr.b
  writeRegister dst (← onData (DataPath.read (← readRegister addr_reg)))

def exec_store (instr : InstructionDto) : Action Unit := do
  let addr_reg ← requireA instr
  let value_reg ← requireRegister instr.b
  onData (DataPath.write (← readRegister addr_reg) (← readRegister value_reg))

/-- The shape of `ADD`, `SUB`, `AND` and `OR`. -/
def exec_binary (op : ℤ → ℤ → ℤ) (instr : InstructionDto) : Action Unit := do
  let dst ← requireA instr
  writeRegister dst (op (← readRegister dst) (← operandValue instr.b))

def exec_add : InstructionDto → Action Unit := exec_binary (· + ·)

def exec_sub : InstructionDto → Action Unit := exec_binary (· - ·)

def exec_and : InstructionDto → Action Unit := exec_binary Int.land

def exec_or : InstructionDto → Action Unit := exec_binary Int.lor

def exec_invert (instr : InstructionDto) : Action Unit := do
  let dst ← requireA instr
  writeRegister dst (Int.not (← readRegister dst))

def exec_jmp (instr : InstructionDto) : Action Unit := do
  let target_reg ← requireA instr
  jump (← readRegister target_reg)

/-- The shape of `JZ` and `JS`; the program counter has already moved past the instruction. -/
def exec_branch (test : ℤ → Bool) (instr : InstructionDto) : Action Unit := do
  let tested_reg ← requireA instr
  let offset ← requireOffset instr.offset
  if test (← readRegister tested_reg) then branch offset

def exec_jz : InstructionDto → Action Unit := exec_branch (· == 0)

def exec_js : InstructionDto → Action Unit := exec_branch (· < 0)

def exec_push_d (instr : InstructionDto) : Action Unit := do
  onData (DataPath.pushData (← readRegister (← requireA instr)))

def exec_pop_d (instr : InstructionDto) : Action Unit := do
  let dst ← requireA instr
  writeRegister dst (← onData DataPath.popData)

def exec_push_r (instr : InstructionDto) : Action Unit := do
  onData (DataPath.pushReturn (← readRegister (← requireA instr)))

def exec_pop_r (instr : InstructionDto) : Action Unit := do
  let dst ← requireA instr
  writeRegister dst (← onData DataPath.popReturn)

def exec_in (instr : InstructionDto) : Action Unit := do
  let dst ← requireA instr
  writeRegister dst (← readInput)

def exec_out (instr : InstructionDto) : Action Unit := do
  writeOutput (← readRegister (← requireA instr))

def exec_halt (_instr : InstructionDto) : Action Unit := fun s => .ok () { s with halted := true }

/-- The table from opcodes to handlers. -/
def handlers : List (Opcode × (InstructionDto → Action Unit)) := [
  (.LOAD, exec_load), (.STORE, exec_store), (.ADD, exec_add), (.SUB, exec_sub), (.AND, exec_and),
  (.OR, exec_or), (.INVERT, exec_invert), (.JMP, exec_jmp), (.JZ, exec_jz), (.JS, exec_js),
  (.PUSH_D, exec_push_d), (.POP_D, exec_pop_d), (.PUSH_R, exec_push_r), (.POP_R, exec_pop_r),
  (.IN, exec_in), (.OUT, exec_out), (.HALT, exec_halt)]

/-- `self._program[self._pc]`. -/
def fetch : Action InstructionDto := fun s =>
  match index? s.program.length s.pc with
  | some i => .ok s.program[i] s
  | none => .error .indexError s

/-- `self._handlers[instruction.opcode](instruction)`. -/
def execute (instruction : InstructionDto) : Action Unit :=
  match handlers.lookup instruction.opcode with
  | some handler => handler instruction
  | none => throw .keyError

/-- Fetches the instruction at `pc`, advances `pc`, then executes it. -/
def step : Action Unit := do
  let instruction ← fetch
  branch 1
  execute instruction

/-- A step executes the instruction at `pc`, with `pc` moved past it. -/
lemma step_eq {s : EmulatorService} {i : Fin s.program.length}
    (h : index? s.program.length s.pc = some i) :
    step s = execute s.program[i] { s with pc := s.pc + 1 } := by
  have e : fetch s = .ok s.program[i] s := by simp only [fetch, h]
  exact bind_ok e

/-- A step at a position inside the program. -/
lemma step_at {s : EmulatorService} {k : ℕ} {instr : InstructionDto} (pc : s.pc = k)
    (h : s.program[k]? = some instr) : step s = execute instr { s with pc := k + 1 } := by
  obtain ⟨lt, e⟩ := List.getElem?_eq_some_iff.mp h
  have i : index? s.program.length s.pc = some ⟨k, lt⟩ :=
    index?_eq_some.mpr (.inl (by simp [pc]))
  rw [step_eq i, ← e, ← pc]
  rfl

/-- The loop of `run` as a machine: it stops once the emulator is halted, and fails when a step
    raises. -/
def advance (s : EmulatorService) : Outcome PyError EmulatorService :=
  if s.halted then .halt
  else
    match step s with
    | .ok _ s' => .next s'
    | .error e _ => .fail e

end EmulatorService

end MinCpuForth.Emulator
