import MinCpuForth.Adapters.DataPathCells
import MinCpuForth.Emulator.Block

/-!
# The emulator cell by cell

The emulator with its memory as a function from addresses to cells and its stacks as their pointers.
In contrast to the view, nothing is left out: the cells of the stacks that are not in use, accesses to
the stacks through the memory and addresses outside the memory all have their meaning.
-/

namespace MinCpuForth.Emulator
open Python Domain Adapters Lib Layout EmulatorService

/-- What the emulator's state comes down to. -/
structure Bare where
  program : List InstructionDto
  pc : ℤ
  regs : PyStr → ℤ
  cell : ℤ → ℤ
  /-- The pointer of the data stack. -/
  sp : ℤ
  /-- The pointer of the return stack. -/
  rp : ℤ
  input : List ℤ
  output : List ℤ
  halted : Bool

/-- The emulator's state, bare. -/
def bare (s : EmulatorService) : Bare where
  program := s.program
  pc := s.pc
  regs := s.registers
  cell := s.data.memory.cell
  sp := s.data.data_stack.pointer
  rp := s.data.return_stack.pointer
  input := s.char_input
  output := s.char_output
  halted := s.halted

namespace Bare

/-- Writes a register. -/
def setReg (v : Bare) (name : PyStr) (value : ℤ) : Bare :=
  { v with regs := Function.update v.regs name value }

/-- Writes a cell. -/
def setCell (v : Bare) (address value : ℤ) : Bare :=
  { v with cell := Function.update v.cell address value }

/-- The value of an operand. -/
def operand (v : Bare) : Operand → ℤ
  | .reg name => v.regs name
  | .imm value => value

/-- What an instruction does, once `pc` has moved past it. -/
def exec (i : InstructionDto) (v : Bare) : Outcome PyError Bare :=
  match i.opcode, i.a, i.b, i.offset with
  | .LOAD, some d, some (.reg r), _ =>
    if Inside (v.regs r) then .next (v.setReg d (v.cell (v.regs r)))
    else if Wraps (v.regs r) then .next (v.setReg d (v.cell (v.regs r + MEMORY_SIZE)))
    else .fail .indexError
  | .STORE, some a, some (.reg r), _ =>
    if Inside (v.regs a) then .next (v.setCell (v.regs a) (v.regs r))
    else if Wraps (v.regs a) then .next (v.setCell (v.regs a + MEMORY_SIZE) (v.regs r))
    else .fail .indexError
  | .ADD, some d, some o, _ => .next (v.setReg d (v.regs d + v.operand o))
  | .SUB, some d, some o, _ => .next (v.setReg d (v.regs d - v.operand o))
  | .AND, some d, some o, _ => .next (v.setReg d (Int.land (v.regs d) (v.operand o)))
  | .OR, some d, some o, _ => .next (v.setReg d (Int.lor (v.regs d) (v.operand o)))
  | .INVERT, some d, _, _ => .next (v.setReg d (Int.not (v.regs d)))
  | .JMP, some r, _, _ => .next { v with pc := v.regs r }
  | .JZ, some r, _, some o => .next (if v.regs r = 0 then { v with pc := v.pc + o } else v)
  | .JS, some r, _, some o => .next (if v.regs r < 0 then { v with pc := v.pc + o } else v)
  | .PUSH_D, some r, _, _ =>
    if DICTIONARY_TOP < v.sp then .next ({ v with sp := v.sp - 1 }.setCell (v.sp - 1) (v.regs r))
    else .fail .stackOverflow
  | .POP_D, some d, _, _ =>
    if v.sp < DATA_STACK_BASE then .next ({ v with sp := v.sp + 1 }.setReg d (v.cell v.sp))
    else .fail .stackUnderflow
  | .PUSH_R, some r, _, _ =>
    if DATA_STACK_BASE < v.rp then .next ({ v with rp := v.rp - 1 }.setCell (v.rp - 1) (v.regs r))
    else .fail .stackOverflow
  | .POP_R, some d, _, _ =>
    if v.rp < RETURN_STACK_BASE then .next ({ v with rp := v.rp + 1 }.setReg d (v.cell v.rp))
    else .fail .stackUnderflow
  | .IN, some d, _, _ =>
    match v.input with
    | [] => .fail .inputExhausted
    | c :: cs => .next ({ v with input := cs }.setReg d c)
  | .OUT, some r, _, _ => .next { v with output := v.output ++ [v.regs r] }
  | .HALT, _, _, _ => .next { v with halted := true }
  | _, _, _, _ => .unknown

/-- One step. -/
def step (v : Bare) : Outcome PyError Bare :=
  if v.halted then .halt
  else
    match index? v.program.length v.pc with
    | some i => exec v.program[i] { v with pc := v.pc + 1 }
    | none => .fail .indexError

end Bare

section Handlers

variable (s : EmulatorService) (d r : PyStr) (b : Option Operand) (off : Option ℤ)

lemma load_agrees_bare : AgreesOn bare (execute ⟨.LOAD, some d, some (.reg r), off⟩ s)
    (Bare.exec ⟨.LOAD, some d, some (.reg r), off⟩ (bare s)) := by
  simp only [Bare.exec]
  split
  · rename_i h
    exact ⟨_, bind_ok (onData_ok (s.data.read_inside h)), rfl⟩
  · rename_i h
    split
    · rename_i h'
      exact ⟨_, bind_ok (onData_ok (s.data.read_wraps h')), rfl⟩
    · rename_i h'
      have run := onData_error (s.data.read_outside h h')
      exact ⟨_, (bind_ok rfl).trans ((bind_ok rfl).trans ((bind_ok rfl).trans (bind_error run)))⟩

lemma store_agrees_bare : AgreesOn bare (execute ⟨.STORE, some d, some (.reg r), off⟩ s)
    (Bare.exec ⟨.STORE, some d, some (.reg r), off⟩ (bare s)) := by
  simp only [Bare.exec]
  split
  · rename_i h
    refine ⟨_, onData_ok (s.data.write_inside (s.registers r) h), ?_⟩
    exact congrArg (fun c => { bare s with cell := c }) (ListMemoryAdapter.cell_set _ _ h)
  · rename_i h
    split
    · rename_i h'
      refine ⟨_, onData_ok (s.data.write_wraps (s.registers r) h'), ?_⟩
      have inside : Inside ((bare s).regs d + MEMORY_SIZE) := by
        have lay := Layout.values
        omega
      exact congrArg (fun c => { bare s with cell := c }) (ListMemoryAdapter.cell_set _ _ inside)
    · rename_i h'
      exact ⟨_, onData_error (s.data.write_outside (s.registers r) h h')⟩

lemma push_d_agrees_bare : AgreesOn bare (execute ⟨.PUSH_D, some r, b, off⟩ s)
    (Bare.exec ⟨.PUSH_D, some r, b, off⟩ (bare s)) := by
  obtain ⟨ok, full⟩ := s.data.pushData_cells (s.registers r)
  have lay := Layout.values
  have hi := s.data.data_stack.le_base
  simp only [Bare.exec]
  split
  · rename_i room
    obtain ⟨p, e, run⟩ := ok room
    refine ⟨_, onData_ok run, ?_⟩
    have inside : Inside (s.data.data_stack.pointer - 1) := by
      have room : DICTIONARY_TOP < s.data.data_stack.pointer := room
      omega
    simp only [bare, Bare.setCell, e, ListMemoryAdapter.cell_set _ _ inside]
  · rename_i room
    exact ⟨_, onData_error (full room)⟩

lemma pop_d_agrees_bare : AgreesOn bare (execute ⟨.POP_D, some d, b, off⟩ s)
    (Bare.exec ⟨.POP_D, some d, b, off⟩ (bare s)) := by
  obtain ⟨ok, empty⟩ := s.data.popData_cells
  simp only [Bare.exec]
  split
  · rename_i pos
    obtain ⟨p, e, run⟩ := ok pos
    refine ⟨_, bind_ok (onData_ok run), ?_⟩
    simp only [bare, Bare.setReg, e]
  · rename_i pos
    exact ⟨_, (bind_ok rfl).trans (bind_error (onData_error (empty pos)))⟩

lemma push_r_agrees_bare : AgreesOn bare (execute ⟨.PUSH_R, some r, b, off⟩ s)
    (Bare.exec ⟨.PUSH_R, some r, b, off⟩ (bare s)) := by
  obtain ⟨ok, full⟩ := s.data.pushReturn_cells (s.registers r)
  have lay := Layout.values
  have hi := s.data.return_stack.le_base
  simp only [Bare.exec]
  split
  · rename_i room
    obtain ⟨p, e, run⟩ := ok room
    refine ⟨_, onData_ok run, ?_⟩
    have inside : Inside (s.data.return_stack.pointer - 1) := by
      have room : DATA_STACK_BASE < s.data.return_stack.pointer := room
      omega
    simp only [bare, Bare.setCell, e, ListMemoryAdapter.cell_set _ _ inside]
  · rename_i room
    exact ⟨_, onData_error (full room)⟩

lemma pop_r_agrees_bare : AgreesOn bare (execute ⟨.POP_R, some d, b, off⟩ s)
    (Bare.exec ⟨.POP_R, some d, b, off⟩ (bare s)) := by
  obtain ⟨ok, empty⟩ := s.data.popReturn_cells
  simp only [Bare.exec]
  split
  · rename_i pos
    obtain ⟨p, e, run⟩ := ok pos
    refine ⟨_, bind_ok (onData_ok run), ?_⟩
    simp only [bare, Bare.setReg, e]
  · rename_i pos
    exact ⟨_, (bind_ok rfl).trans (bind_error (onData_error (empty pos)))⟩

lemma in_agrees_bare : AgreesOn bare (execute ⟨.IN, some d, b, off⟩ s)
    (Bare.exec ⟨.IN, some d, b, off⟩ (bare s)) := by
  simp only [Bare.exec]
  split
  · rename_i h
    exact ⟨_, (bind_ok rfl).trans (bind_error (readInput_nil h))⟩
  · rename_i c cs h
    exact ⟨_, bind_ok (readInput_cons h), rfl⟩

end Handlers

/-- The binary operations. -/
lemma binary_agrees_bare (op : ℤ → ℤ → ℤ) (s : EmulatorService) (i : InstructionDto) (d : PyStr)
    (o : Operand) (ha : i.a = some d) (hb : i.b = some o) :
    AgreesOn bare (exec_binary op i s)
      (.next ((bare s).setReg d (op ((bare s).regs d) ((bare s).operand o)))) := by
  obtain ⟨opcode, a, b, off⟩ := i
  cases ha
  cases hb
  cases o <;> exact ⟨_, rfl, rfl⟩

/-- Every instruction does to the emulator what it does to the bare machine. -/
lemma execute_agrees_bare (i : InstructionDto) (s : EmulatorService) :
    AgreesOn bare (execute i s) (Bare.exec i (bare s)) := by
  obtain ⟨op, a, b, off⟩ := i
  cases op with
  | LOAD =>
    rcases a with _ | d
    · trivial
    · rcases b with _ | (r | n)
      · trivial
      · exact load_agrees_bare s d r off
      · trivial
  | STORE =>
    rcases a with _ | d
    · trivial
    · rcases b with _ | (r | n)
      · trivial
      · exact store_agrees_bare s d r off
      · trivial
  | ADD | SUB | AND | OR =>
    rcases a with _ | d
    · trivial
    · rcases b with _ | o
      · trivial
      · exact binary_agrees_bare _ s _ d o rfl rfl
  | INVERT | JMP | OUT =>
    rcases a with _ | d
    · trivial
    · exact ⟨_, rfl, rfl⟩
  | JZ =>
    rcases a with _ | r
    · trivial
    · rcases off with _ | o
      · trivial
      · exact branch_agrees bare s _ o (by simp [bare]) _ rfl rfl
  | JS =>
    rcases a with _ | r
    · trivial
    · rcases off with _ | o
      · trivial
      · exact branch_agrees bare s _ o (by simp [bare]) _ rfl rfl
  | PUSH_D =>
    rcases a with _ | r
    · trivial
    · exact push_d_agrees_bare s r b off
  | POP_D =>
    rcases a with _ | d
    · trivial
    · exact pop_d_agrees_bare s d b off
  | PUSH_R =>
    rcases a with _ | r
    · trivial
    · exact push_r_agrees_bare s r b off
  | POP_R =>
    rcases a with _ | d
    · trivial
    · exact pop_r_agrees_bare s d b off
  | IN =>
    rcases a with _ | d
    · trivial
    · exact in_agrees_bare s d b off
  | HALT => exact ⟨_, rfl, rfl⟩

/-- Runs of the bare machine are runs of the emulator. -/
theorem bare_simulates : Simulates bare advance Bare.step := by
  refine simulates_of_agrees ?_ ?_ ?_
  · intro s h
    simp only [Bare.step, show (bare s).halted = true from h, if_true]
  · intro s running h
    simp only [Bare.step, if_neg (show ¬(bare s).halted = true by simp [bare, running])]
    simp only [bare, h]
  · intro s running i h
    have e : Bare.step (bare s) = Bare.exec s.program[i] (bare { s with pc := s.pc + 1 }) := by
      simp only [Bare.step, if_neg (show ¬(bare s).halted = true by simp [bare, running])]
      simp only [bare, h]
    rw [e]
    exact execute_agrees_bare _ _

end MinCpuForth.Emulator
