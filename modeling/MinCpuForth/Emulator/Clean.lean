import MinCpuForth.Adapters.DataPathCells
import MinCpuForth.Emulator.Service

/-!
# Failing steps

Every handler reads before it writes, and does at most one thing that may fail. A step that raises
has therefore done nothing, except that `pc` has moved past the instruction if there was one.
-/

namespace MinCpuForth.Emulator
open Python Domain Adapters Lib EmulatorService

variable {ε σ α β : Type}

/-- An action that raises leaves the state as it was. -/
def Clean (x : EStateM ε σ α) : Prop := ∀ s e s', x s = .error e s' → s' = s

/-- An action that leaves the state as it was. -/
def Reads (x : EStateM ε σ α) : Prop :=
  Clean x ∧ ∀ s a s', x s = .ok a s' → s' = s

/-- An action that does not raise. -/
def Total (x : EStateM ε σ α) : Prop := ∀ s, ∃ a s', x s = .ok a s'

section Sequences

variable {x : EStateM ε σ α} {f : α → EStateM ε σ β}

lemma Total.clean (h : Total x) : Clean x := by
  intro s e s' run
  obtain ⟨a, t, run'⟩ := h s
  cases run'.symm.trans run

lemma Reads.pure (a : α) : Reads (Pure.pure a : EStateM ε σ α) :=
  ⟨fun _ _ _ run => (by cases run), fun _ _ _ run => by cases run; rfl⟩

lemma Reads.throw (e : ε) : Reads (throw e : EStateM ε σ α) :=
  ⟨fun _ _ _ run => (by cases run; rfl), fun _ _ _ run => by cases run⟩

/-- Reading first. -/
lemma Reads.bind (h : Reads x) (h' : ∀ a, Clean (f a)) : Clean (x >>= f) := by
  intro s e s' run
  rcases bind_eq_error.mp run with run | ⟨a, t, run, run'⟩
  · exact h.1 s e s' run
  · obtain rfl := h.2 s a t run
    exact h' a t e s' run'

/-- Going on with something that does not raise. -/
lemma Clean.bind (h : Clean x) (h' : ∀ a, Total (f a)) : Clean (x >>= f) := by
  intro s e s' run
  rcases bind_eq_error.mp run with run | ⟨a, t, -, run'⟩
  · exact h s e s' run
  · obtain ⟨b, u, ok⟩ := h' a t
    cases ok.symm.trans run'

end Sequences

section Ports

variable (a v : ℤ)

lemma read_clean : Clean (DataPath.read a) := by
  intro p e q run
  rw [p.read_cellOf] at run
  split at run <;> cases run
  rfl

lemma write_clean : Clean (DataPath.write a v) := by
  intro p e q run
  rw [p.write_cellOf] at run
  split at run <;> cases run
  rfl

lemma pushData_clean : Clean (DataPath.pushData v) := by
  intro p e q run
  by_cases room : Layout.DICTIONARY_TOP < p.data_stack.pointer
  · obtain ⟨s, -, ok⟩ := (p.pushData_cells v).1 room
    cases ok.symm.trans run
  · cases ((p.pushData_cells v).2 room).symm.trans run
    rfl

lemma popData_clean : Clean DataPath.popData := by
  intro p e q run
  by_cases pos : p.data_stack.pointer < Layout.DATA_STACK_BASE
  · obtain ⟨s, -, ok⟩ := p.popData_cells.1 pos
    cases ok.symm.trans run
  · cases (p.popData_cells.2 pos).symm.trans run
    rfl

lemma pushReturn_clean : Clean (DataPath.pushReturn v) := by
  intro p e q run
  by_cases room : Layout.DATA_STACK_BASE < p.return_stack.pointer
  · obtain ⟨s, -, ok⟩ := (p.pushReturn_cells v).1 room
    cases ok.symm.trans run
  · cases ((p.pushReturn_cells v).2 room).symm.trans run
    rfl

lemma popReturn_clean : Clean DataPath.popReturn := by
  intro p e q run
  by_cases pos : p.return_stack.pointer < Layout.RETURN_STACK_BASE
  · obtain ⟨s, -, ok⟩ := p.popReturn_cells.1 pos
    cases ok.symm.trans run
  · cases (p.popReturn_cells.2 pos).symm.trans run
    rfl

lemma onData_clean {op : EStateM PyError DataPath α} (h : Clean op) : Clean (onData op) := by
  intro s e s' run
  unfold onData at run
  split at run
  · cases run
  · rename_i e' d eq
    cases run
    obtain rfl := h _ _ _ eq
    rfl

lemma readInput_clean : Clean readInput := by
  intro s e s' run
  unfold readInput at run
  split at run <;> cases run
  rfl

end Ports

section Handlers

variable (name : PyStr) (value : ℤ) (instr : InstructionDto)

lemma readRegister_reads : Reads (readRegister name) :=
  ⟨fun _ _ _ run => (by cases run), fun _ _ _ run => by cases run; rfl⟩

lemma writeRegister_total : Total (writeRegister name value) := fun _ => ⟨_, _, rfl⟩

lemma requireA_reads : Reads (requireA instr) := by
  unfold requireA
  split
  · exact .pure _
  · exact .throw _

lemma requireRegister_reads (operand : Option Operand) : Reads (requireRegister operand) := by
  unfold requireRegister
  split
  · exact .pure _
  · exact .throw _
  · exact .throw _

lemma requireOffset_reads (offset : Option ℤ) : Reads (requireOffset offset) := by
  unfold requireOffset
  split
  · exact .pure _
  · exact .throw _

/-- The operations on two operands. -/
lemma exec_binary_clean (op : ℤ → ℤ → ℤ) : Clean (exec_binary op instr) := by
  refine (requireA_reads instr).bind fun dst => (readRegister_reads dst).bind fun x => ?_
  rcases instr.b with _ | (r | n)
  · exact Reads.bind (.throw _) fun _ => (writeRegister_total _ _).clean
  · exact (readRegister_reads r).bind fun _ => (writeRegister_total _ _).clean
  · exact (writeRegister_total _ _).clean

/-- The branches. -/
lemma exec_branch_clean (test : ℤ → Bool) : Clean (exec_branch test instr) := by
  refine (requireA_reads instr).bind fun r => (requireOffset_reads _).bind fun o =>
    (readRegister_reads r).bind fun x => ?_
  split
  · exact Total.clean fun _ => ⟨_, _, rfl⟩
  · exact (Reads.pure _).1

/-- An instruction that raises has done nothing. -/
lemma execute_clean : Clean (execute instr) := by
  obtain ⟨opcode, a, b, offset⟩ := instr
  cases opcode with
  | LOAD =>
    exact (requireA_reads _).bind fun _ => (requireRegister_reads _).bind fun r =>
      (readRegister_reads r).bind fun _ => (onData_clean (read_clean _)).bind fun _ =>
        writeRegister_total _ _
  | STORE =>
    exact (requireA_reads _).bind fun r => (requireRegister_reads _).bind fun r' =>
      (readRegister_reads r).bind fun _ => (readRegister_reads r').bind fun _ =>
        onData_clean (write_clean _ _)
  | ADD | SUB | AND | OR => exact exec_binary_clean _ _
  | INVERT =>
    exact (requireA_reads _).bind fun r => (readRegister_reads r).bind fun _ =>
      (writeRegister_total _ _).clean
  | JMP =>
    exact (requireA_reads _).bind fun r => (readRegister_reads r).bind fun _ =>
      Total.clean fun _ => ⟨_, _, rfl⟩
  | JZ | JS => exact exec_branch_clean _ _
  | PUSH_D =>
    exact (requireA_reads _).bind fun r => (readRegister_reads r).bind fun _ =>
      onData_clean (pushData_clean _)
  | POP_D =>
    exact (requireA_reads _).bind fun _ => (onData_clean popData_clean).bind fun _ =>
      writeRegister_total _ _
  | PUSH_R =>
    exact (requireA_reads _).bind fun r => (readRegister_reads r).bind fun _ =>
      onData_clean (pushReturn_clean _)
  | POP_R =>
    exact (requireA_reads _).bind fun _ => (onData_clean popReturn_clean).bind fun _ =>
      writeRegister_total _ _
  | IN =>
    exact (requireA_reads _).bind fun _ => readInput_clean.bind fun _ => writeRegister_total _ _
  | OUT =>
    exact (requireA_reads _).bind fun r => (readRegister_reads r).bind fun _ =>
      Total.clean fun _ => ⟨_, _, rfl⟩
  | HALT => exact Total.clean fun _ => ⟨_, _, rfl⟩

end Handlers

/-- A step that raises has done nothing, or nothing but move `pc` past the instruction that it
    fetched. -/
lemma step_error {s s' : EmulatorService} {e : PyError} (h : step s = .error e s') :
    (fetch s = .error e s ∧ s' = s) ∨ ∃ i, fetch s = .ok i s ∧ s' = { s with pc := s.pc + 1 } := by
  rcases bind_eq_error.mp h with run | ⟨i, t, run, run'⟩
  · have same : s' = s := by
      unfold fetch at run
      split at run <;> cases run
      rfl
    subst same
    exact .inl ⟨run, rfl⟩
  · have same : t = s := by
      unfold fetch at run
      split at run <;> cases run
      rfl
    subst same
    exact .inr ⟨i, run, execute_clean i _ e s' run'⟩

/-- A step that raises, whatever it raises, leaves the registers, the memory and both stacks, the
    remaining input, the output and the halted flag as they were. `pc` is the old one if there was
    no instruction to fetch, and the next one otherwise. -/
theorem failing_step_has_no_effect {s s' : EmulatorService} {e : PyError}
    (h : step s = .error e s') :
    s'.registers = s.registers ∧ s'.data = s.data ∧ s'.char_input = s.char_input ∧
      s'.char_output = s.char_output ∧ s'.halted = s.halted ∧ s'.program = s.program ∧
      ((fetch s = .error e s ∧ s'.pc = s.pc) ∨
        ∃ instruction, fetch s = .ok instruction s ∧ s'.pc = s.pc + 1) := by
  rcases step_error h with ⟨fails, rfl⟩ | ⟨i, fetched, rfl⟩
  · exact ⟨rfl, rfl, rfl, rfl, rfl, rfl, .inl ⟨fails, rfl⟩⟩
  · exact ⟨rfl, rfl, rfl, rfl, rfl, rfl, .inr ⟨i, fetched, rfl⟩⟩

/-- A `STORE` above the memory. -/
theorem failing_step_has_no_effect_store :
    ∃ s s' : EmulatorService, step s = .error .indexError s' ∧ s'.data = s.data ∧ s'.pc = 1 := by
  let s : EmulatorService :=
    ⟨fun _ => 70000, ⟨.zeroed _, .init .., .init ..⟩, [65], [], [.STORE "A" "X"], 0, false⟩
  have run : step s = .error .indexError { s with pc := 1 } := rfl
  obtain ⟨-, data, -⟩ := failing_step_has_no_effect run
  exact ⟨s, _, run, data, rfl⟩

end MinCpuForth.Emulator
