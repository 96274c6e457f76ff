import MinCpuForth.Emulator.Simulation

/-!
# The emulator seen through its stacks

A machine whose stacks are lists and whose memory is the part below the stacks. It knows what every
instruction does except for accesses to memory outside that part, and the emulator does the same:
what is proved about runs of the view holds of runs of the emulator.
-/

namespace MinCpuForth.Emulator
open Python Domain Adapters Lib Layout EmulatorService

/-- What the emulator's state means. -/
structure View where
  program : List InstructionDto
  pc : ℤ
  regs : PyStr → ℤ
  ds : List ℤ
  rs : List ℤ
  mem : ℤ → ℤ
  input : List ℤ
  output : List ℤ
  halted : Bool

/-- The view of an emulator. -/
def view (s : EmulatorService) : View where
  program := s.program
  pc := s.pc
  regs := s.registers
  ds := s.data.contents.ds
  rs := s.data.contents.rs
  mem := s.data.contents.mem
  input := s.char_input
  output := s.char_output
  halted := s.halted

namespace View

/-- Writes a register. -/
def setReg (v : View) (name : PyStr) (value : ℤ) : View :=
  { v with regs := Function.update v.regs name value }

/-- Writes a memory cell. -/
def setMem (v : View) (address value : ℤ) : View :=
  { v with mem := fun i => if i = address then value else v.mem i }

/-- The value of an operand. -/
def operand (v : View) : Operand → ℤ
  | .reg name => v.regs name
  | .imm value => value

/-- Whether an address lies below the stacks. -/
abbrev Below (address : ℤ) : Prop := 0 ≤ address ∧ address < DICTIONARY_TOP

/-- What an instruction does, once `pc` has moved past it. -/
def exec (i : InstructionDto) (v : View) : Outcome PyError View :=
  match i.opcode, i.a, i.b, i.offset with
  | .LOAD, some d, some (.reg r), _ =>
    if Below (v.regs r) then .next (v.setReg d (v.mem (v.regs r))) else .unknown
  | .STORE, some a, some (.reg r), _ =>
    if Below (v.regs a) then .next (v.setMem (v.regs a) (v.regs r)) else .unknown
  | .ADD, some d, some o, _ => .next (v.setReg d (v.regs d + v.operand o))
  | .SUB, some d, some o, _ => .next (v.setReg d (v.regs d - v.operand o))
  | .AND, some d, some o, _ => .next (v.setReg d (Int.land (v.regs d) (v.operand o)))
  | .OR, some d, some o, _ => .next (v.setReg d (Int.lor (v.regs d) (v.operand o)))
  | .INVERT, some d, _, _ => .next (v.setReg d (Int.not (v.regs d)))
  | .JMP, some r, _, _ => .next { v with pc := v.regs r }
  | .JZ, some r, _, some o => .next (if v.regs r = 0 then { v with pc := v.pc + o } else v)
  | .JS, some r, _, some o => .next (if v.regs r < 0 then { v with pc := v.pc + o } else v)
  | .PUSH_D, some r, _, _ =>
    if v.ds.length < 1024 then .next { v with ds := v.regs r :: v.ds } else .fail .stackOverflow
  | .POP_D, some d, _, _ =>
    match v.ds with
    | [] => .fail .stackUnderflow
    | x :: xs => .next ({ v with ds := xs }.setReg d x)
  | .PUSH_R, some r, _, _ =>
    if v.rs.length < 1024 then .next { v with rs := v.regs r :: v.rs } else .fail .stackOverflow
  | .POP_R, some d, _, _ =>
    match v.rs with
    | [] => .fail .stackUnderflow
    | x :: xs => .next ({ v with rs := xs }.setReg d x)
  | .IN, some d, _, _ =>
    match v.input with
    | [] => .fail .inputExhausted
    | c :: cs => .next ({ v with input := cs }.setReg d c)
  | .OUT, some r, _, _ => .next { v with output := v.output ++ [v.regs r] }
  | .HALT, _, _, _ => .next { v with halted := true }
  | _, _, _, _ => .unknown

/-- One step of the view. -/
def step (v : View) : Outcome PyError View :=
  if v.halted then .halt
  else
    match index? v.program.length v.pc with
    | some i => exec v.program[i] { v with pc := v.pc + 1 }
    | none => .fail .indexError

end View

/-- The emulator's action agrees with what the view says happens. -/
abbrev Agrees : EStateM.Result PyError EmulatorService Unit → Outcome PyError View → Prop :=
  AgreesOn view

section Handlers

variable (s : EmulatorService) (d r : PyStr) (off : Option ℤ)

lemma load_agrees : Agrees (execute ⟨.LOAD, some d, some (.reg r), off⟩ s)
    (View.exec ⟨.LOAD, some d, some (.reg r), off⟩ (view s)) := by
  simp only [View.exec]
  split
  · rename_i h
    have run := onData_ok (s.data.read_run h.1 h.2)
    refine ⟨{ s with registers := _ }, ?_, rfl⟩
    exact bind_ok run
  · trivial

lemma store_agrees : Agrees (execute ⟨.STORE, some d, some (.reg r), off⟩ s)
    (View.exec ⟨.STORE, some d, some (.reg r), off⟩ (view s)) := by
  simp only [View.exec]
  split
  · rename_i h
    obtain ⟨p, e, hc⟩ := s.data.write_run (s.registers r) h.1 h.2
    refine ⟨_, onData_ok e, ?_⟩
    simp only [view, View.setMem, hc]
  · trivial

lemma push_d_agrees (b : Option Operand) : Agrees (execute ⟨.PUSH_D, some r, b, off⟩ s)
    (View.exec ⟨.PUSH_D, some r, b, off⟩ (view s)) := by
  have refines := DataPath.pushData_refines (s.registers r) s.data
  simp only [View.exec]
  split
  · rename_i h
    simp only [DataPath.Contents.pushData, show s.data.contents.ds.length < 1024 from h,
      if_true] at refines
    obtain ⟨p, e, hc⟩ := refines
    refine ⟨_, onData_ok e, ?_⟩
    simp only [view, hc]
  · rename_i h
    simp only [DataPath.Contents.pushData, show ¬s.data.contents.ds.length < 1024 from h,
      if_false] at refines
    obtain ⟨p, e⟩ := refines
    exact ⟨_, onData_error e⟩

lemma pop_d_agrees (b : Option Operand) : Agrees (execute ⟨.POP_D, some d, b, off⟩ s)
    (View.exec ⟨.POP_D, some d, b, off⟩ (view s)) := by
  have refines := DataPath.popData_refines s.data
  simp only [View.exec]
  split
  · rename_i h
    simp only [DataPath.Contents.popData, show s.data.contents.ds = [] from h] at refines
    obtain ⟨p, e⟩ := refines
    exact ⟨_, (bind_ok rfl).trans (bind_error (onData_error e))⟩
  · rename_i x xs h
    simp only [DataPath.Contents.popData, show s.data.contents.ds = x :: xs from h] at refines
    obtain ⟨p, e, hc⟩ := refines
    refine ⟨_, bind_ok (onData_ok e), ?_⟩
    simp only [view, View.setReg, hc]

lemma push_r_agrees (b : Option Operand) : Agrees (execute ⟨.PUSH_R, some r, b, off⟩ s)
    (View.exec ⟨.PUSH_R, some r, b, off⟩ (view s)) := by
  have refines := DataPath.pushReturn_refines (s.registers r) s.data
  simp only [View.exec]
  split
  · rename_i h
    simp only [DataPath.Contents.pushReturn, show s.data.contents.rs.length < 1024 from h,
      if_true] at refines
    obtain ⟨p, e, hc⟩ := refines
    refine ⟨_, onData_ok e, ?_⟩
    simp only [view, hc]
  · rename_i h
    simp only [DataPath.Contents.pushReturn, show ¬s.data.contents.rs.length < 1024 from h,
      if_false] at refines
    obtain ⟨p, e⟩ := refines
    exact ⟨_, onData_error e⟩

lemma pop_r_agrees (b : Option Operand) : Agrees (execute ⟨.POP_R, some d, b, off⟩ s)
    (View.exec ⟨.POP_R, some d, b, off⟩ (view s)) := by
  have refines := DataPath.popReturn_refines s.data
  simp only [View.exec]
  split
  · rename_i h
    simp only [DataPath.Contents.popReturn, show s.data.contents.rs = [] from h] at refines
    obtain ⟨p, e⟩ := refines
    exact ⟨_, (bind_ok rfl).trans (bind_error (onData_error e))⟩
  · rename_i x xs h
    simp only [DataPath.Contents.popReturn, show s.data.contents.rs = x :: xs from h] at refines
    obtain ⟨p, e, hc⟩ := refines
    refine ⟨_, bind_ok (onData_ok e), ?_⟩
    simp only [view, View.setReg, hc]

lemma in_agrees (b : Option Operand) : Agrees (execute ⟨.IN, some d, b, off⟩ s)
    (View.exec ⟨.IN, some d, b, off⟩ (view s)) := by
  simp only [View.exec]
  split
  · rename_i h
    exact ⟨_, (bind_ok rfl).trans (bind_error (readInput_nil h))⟩
  · rename_i c cs h
    exact ⟨_, bind_ok (readInput_cons h), rfl⟩

end Handlers

/-- The binary operations. -/
lemma binary_agrees (op : ℤ → ℤ → ℤ) (s : EmulatorService) (i : InstructionDto) (d : PyStr)
    (o : Operand) (ha : i.a = some d) (hb : i.b = some o) :
    Agrees (exec_binary op i s)
      (.next ((view s).setReg d (op ((view s).regs d) ((view s).operand o)))) := by
  obtain ⟨opcode, a, b, off⟩ := i
  cases ha
  cases hb
  cases o <;> exact ⟨_, rfl, rfl⟩

/-- Every instruction does to the emulator what it does to the view. -/
lemma execute_agrees (i : InstructionDto) (s : EmulatorService) :
    Agrees (execute i s) (View.exec i (view s)) := by
  obtain ⟨op, a, b, off⟩ := i
  cases op with
  | LOAD =>
    rcases a with _ | d
    · trivial
    · rcases b with _ | (r | n)
      · trivial
      · exact load_agrees s d r off
      · trivial
  | STORE =>
    rcases a with _ | d
    · trivial
    · rcases b with _ | (r | n)
      · trivial
      · exact store_agrees s d r off
      · trivial
  | ADD | SUB | AND | OR =>
    rcases a with _ | d
    · trivial
    · rcases b with _ | o
      · trivial
      · exact binary_agrees _ s _ d o rfl rfl
  | INVERT | JMP | OUT =>
    rcases a with _ | d
    · trivial
    · exact ⟨_, rfl, rfl⟩
  | JZ =>
    rcases a with _ | r
    · trivial
    · rcases off with _ | o
      · trivial
      · exact branch_agrees view s _ o (by simp [view]) _ rfl rfl
  | JS =>
    rcases a with _ | r
    · trivial
    · rcases off with _ | o
      · trivial
      · exact branch_agrees view s _ o (by simp [view]) _ rfl rfl
  | PUSH_D =>
    rcases a with _ | r
    · trivial
    · exact push_d_agrees s r off b
  | POP_D =>
    rcases a with _ | d
    · trivial
    · exact pop_d_agrees s d off b
  | PUSH_R =>
    rcases a with _ | r
    · trivial
    · exact push_r_agrees s r off b
  | POP_R =>
    rcases a with _ | d
    · trivial
    · exact pop_r_agrees s d off b
  | IN =>
    rcases a with _ | d
    · trivial
    · exact in_agrees s d off b
  | HALT => exact ⟨_, rfl, rfl⟩

/-- Runs of the view are runs of the emulator. -/
theorem view_simulates : Simulates view advance View.step := by
  refine simulates_of_agrees ?_ ?_ ?_
  · intro s h
    simp only [View.step, show (view s).halted = true from h, if_true]
  · intro s running h
    simp only [View.step, if_neg (show ¬(view s).halted = true by simp [view, running])]
    simp only [view, h]
  · intro s running i h
    have e : View.step (view s) = View.exec s.program[i] (view { s with pc := s.pc + 1 }) := by
      simp only [View.step, if_neg (show ¬(view s).halted = true by simp [view, running])]
      simp only [view, h]
    rw [e]
    exact execute_agrees _ _

end MinCpuForth.Emulator
