import MinCpuForth.Emulator.Clean
import MinCpuForth.Emulator.Symmetry

/-!
# Input and output as streams

The machine reads its input one character at a time and cannot tell how much of it is left; what it
has written does not come back to it. A run is therefore the same whatever follows the input that it
reads, and one that runs out of input goes on once there is more.
-/

namespace MinCpuForth.Emulator
open Python Domain Adapters Lib EmulatorService

/-- The emulator with earlier output, and with more input to come. -/
def EmulatorService.extend (before more : List ℤ) (s : EmulatorService) : EmulatorService :=
  { s with char_input := s.char_input ++ more, char_output := before ++ s.char_output }

/-- The action never raises `InputExhaustedError`. -/
abbrev Supplied {σ α : Type} (x : EStateM PyError σ α) : Prop := RaisesOnly (· ≠ .inputExhausted) x

section Supplied

/-- The emulator adds no exception to those of its data path. -/
lemma onData_supplied {α : Type} {op : EStateM PyError DataPath α} (h : Supplied op) :
    Supplied (onData op) := by
  intro s e s' run
  unfold onData at run
  split at run
  · cases run
  · rename_i e' d raised
    cases run
    exact h _ _ _ raised

lemma read_supplied (a : ℤ) : Supplied (DataPath.read a) := by
  intro p e q run
  rw [p.read_cellOf] at run
  split at run <;> cases run
  decide

lemma write_supplied (a v : ℤ) : Supplied (DataPath.write a v) := by
  intro p e q run
  rw [p.write_cellOf] at run
  split at run <;> cases run
  decide

lemma pushData_supplied (v : ℤ) : Supplied (DataPath.pushData v) := by
  intro p e q run
  by_cases room : Layout.DICTIONARY_TOP < p.data_stack.pointer
  · obtain ⟨s, -, ok⟩ := (p.pushData_cells v).1 room
    cases ok.symm.trans run
  · cases ((p.pushData_cells v).2 room).symm.trans run
    decide

lemma popData_supplied : Supplied DataPath.popData := by
  intro p e q run
  by_cases pos : p.data_stack.pointer < Layout.DATA_STACK_BASE
  · obtain ⟨s, -, ok⟩ := p.popData_cells.1 pos
    cases ok.symm.trans run
  · cases (p.popData_cells.2 pos).symm.trans run
    decide

lemma pushReturn_supplied (v : ℤ) : Supplied (DataPath.pushReturn v) := by
  intro p e q run
  by_cases room : Layout.DATA_STACK_BASE < p.return_stack.pointer
  · obtain ⟨s, -, ok⟩ := (p.pushReturn_cells v).1 room
    cases ok.symm.trans run
  · cases ((p.pushReturn_cells v).2 room).symm.trans run
    decide

lemma popReturn_supplied : Supplied DataPath.popReturn := by
  intro p e q run
  by_cases pos : p.return_stack.pointer < Layout.RETURN_STACK_BASE
  · obtain ⟨s, -, ok⟩ := p.popReturn_cells.1 pos
    cases ok.symm.trans run
  · cases (p.popReturn_cells.2 pos).symm.trans run
    decide

/-- An action that raises nothing. -/
lemma Total.supplied {α : Type} {x : Action α} (h : Total x) : Supplied x := by
  intro s e s' raised
  obtain ⟨a, t, returns⟩ := h s
  cases returns.symm.trans raised

lemma readRegister_supplied (name : PyStr) : Supplied (readRegister name) :=
  Total.supplied fun _ => ⟨_, _, rfl⟩

lemma writeRegister_supplied (name : PyStr) (v : ℤ) : Supplied (writeRegister name v) :=
  (writeRegister_total name v).supplied

lemma requireA_supplied (i : InstructionDto) : Supplied (requireA i) := by
  unfold requireA
  split
  · exact .pure _
  · exact .throw (by decide)

lemma requireRegister_supplied (operand : Option Operand) : Supplied (requireRegister operand) := by
  unfold requireRegister
  split
  · exact .pure _
  · exact .throw PyError.noConfusion
  · exact .throw PyError.noConfusion

lemma requireOffset_supplied (offset : Option ℤ) : Supplied (requireOffset offset) := by
  unfold requireOffset
  split
  · exact .pure _
  · exact .throw (by decide)

lemma operandValue_supplied (operand : Option Operand) : Supplied (operandValue operand) := by
  unfold operandValue
  split
  · exact .pure _
  · exact (requireRegister_supplied _).bind readRegister_supplied

lemma exec_binary_supplied (op : ℤ → ℤ → ℤ) (i : InstructionDto) :
    Supplied (exec_binary op i) := by
  apply (requireA_supplied i).bind
  intro dst
  apply (readRegister_supplied dst).bind
  intro x
  apply (operandValue_supplied i.b).bind
  intro y
  exact writeRegister_supplied dst _

lemma exec_branch_supplied (test : ℤ → Bool) (i : InstructionDto) :
    Supplied (exec_branch test i) := by
  apply (requireA_supplied i).bind
  intro r
  apply (requireOffset_supplied i.offset).bind
  intro o
  apply (readRegister_supplied r).bind
  intro v
  split
  · exact Total.supplied fun _ => ⟨_, _, rfl⟩
  · exact .pure _

/-- Only `IN` reads the input. -/
lemma execute_supplied {i : InstructionDto} (other : i.opcode ≠ .IN) : Supplied (execute i) := by
  obtain ⟨op, a, b, off⟩ := i
  cases op with
  | LOAD =>
    apply (requireA_supplied _).bind
    intro dst
    apply (requireRegister_supplied b).bind
    intro addr
    apply (readRegister_supplied addr).bind
    intro x
    apply (onData_supplied (read_supplied x)).bind
    intro v
    exact writeRegister_supplied dst v
  | STORE =>
    apply (requireA_supplied _).bind
    intro addr
    apply (requireRegister_supplied b).bind
    intro value
    apply (readRegister_supplied addr).bind
    intro x
    apply (readRegister_supplied value).bind
    intro v
    exact onData_supplied (write_supplied x v)
  | ADD | SUB | AND | OR => exact exec_binary_supplied _ _
  | INVERT =>
    apply (requireA_supplied _).bind
    intro dst
    apply (readRegister_supplied dst).bind
    intro x
    exact writeRegister_supplied dst _
  | JMP =>
    apply (requireA_supplied _).bind
    intro r
    apply (readRegister_supplied r).bind
    intro v
    exact Total.supplied fun _ => ⟨_, _, rfl⟩
  | JZ | JS => exact exec_branch_supplied _ _
  | PUSH_D =>
    apply (requireA_supplied _).bind
    intro r
    apply (readRegister_supplied r).bind
    intro v
    exact onData_supplied (pushData_supplied v)
  | POP_D =>
    apply (requireA_supplied _).bind
    intro dst
    apply (onData_supplied popData_supplied).bind
    intro v
    exact writeRegister_supplied dst v
  | PUSH_R =>
    apply (requireA_supplied _).bind
    intro r
    apply (readRegister_supplied r).bind
    intro v
    exact onData_supplied (pushReturn_supplied v)
  | POP_R =>
    apply (requireA_supplied _).bind
    intro dst
    apply (onData_supplied popReturn_supplied).bind
    intro v
    exact writeRegister_supplied dst v
  | IN => exact absurd rfl other
  | OUT =>
    apply (requireA_supplied _).bind
    intro r
    apply (readRegister_supplied r).bind
    intro v
    exact Total.supplied fun _ => ⟨_, _, rfl⟩
  | HALT => exact Total.supplied fun _ => ⟨_, _, rfl⟩

/-- `InputExhaustedError` is raised only where there is no input left. -/
lemma execute_exhausted {i : InstructionDto} {s s' : EmulatorService}
    (raised : execute i s = .error .inputExhausted s') : s.char_input = [] := by
  by_cases isIn : i.opcode = .IN
  · obtain ⟨op, a, b, off⟩ := i
    cases isIn
    rcases bind_eq_error.mp raised with run | ⟨name, t, run, rest⟩
    · exact absurd rfl (requireA_supplied _ s _ s' run)
    · obtain rfl := (requireA_reads _).2 s name t run
      rcases bind_eq_error.mp rest with run | ⟨c, u, -, run⟩
      · unfold readInput at run
        split at run
        · assumption
        · cases run
      · cases run
  · exact absurd rfl (execute_supplied isIn s _ s' raised)

/-- A step that runs out of input is that of an `IN`, and there is no input left. -/
lemma step_exhausted {s s' : EmulatorService} (raised : step s = .error .inputExhausted s') :
    ∃ i, fetch s = .ok i s ∧ i.opcode = .IN ∧ s'.char_input = [] ∧
      s' = { s with pc := s.pc + 1 } := by
  rcases step_error raised with ⟨fails, -⟩ | ⟨i, fetched, rfl⟩
  · unfold fetch at fails
    split at fails <;> cases fails
  · rcases bind_eq_error.mp raised with fails | ⟨i', v, fetched', executed⟩
    · cases fetched.symm.trans fails
    · cases fetched.symm.trans fetched'
      have empty : s.char_input = [] :=
        @execute_exhausted i { s with pc := s.pc + 1 } _ executed
      refine ⟨i, fetched, ?_, empty, rfl⟩
      by_contra other
      exact absurd rfl (execute_supplied other _ _ _ executed)

end Supplied

/-- The second emulator is the first, extended. -/
abbrev Extended (before more : List ℤ) (s t : EmulatorService) : Prop := t = s.extend before more

/-- All that the handlers do is the same with earlier output and more input, unless they run out of
    input. -/
lemma extended_symmetric (before more : List ℤ) :
    Symmetric (· = .inputExhausted) (Extended before more) (fun _ => True) id
      (Extended before more) where
  stopped _ _ h := h
  read := by
    rintro r - s t rfl
    rfl
  write := by
    rintro r - v s t rfl
    exact .ok ⟨rfl, rfl⟩
  data op := by
    rintro s t rfl
    have same : (s.extend before more).data = s.data := rfl
    simp only [onData, same]
    cases op s.data with
    | ok a d => exact .ok ⟨rfl, rfl⟩
    | error e d => exact .error rfl
  input := by
    rintro s t rfl
    have input : (s.extend before more).char_input = s.char_input ++ more := rfl
    simp only [readInput, input]
    cases s.char_input with
    | nil => exact .lost rfl
    | cons c cs => exact .ok ⟨rfl, rfl⟩
  output v := by
    rintro s t rfl
    have output : before ++ s.char_output ++ [v] = before ++ (s.char_output ++ [v]) :=
      List.append_assoc _ _ _
    refine .ok ⟨rfl, ?_⟩
    simp only [EmulatorService.extend, output]
    rfl
  halt := by
    rintro s t rfl
    rfl

/-- One step. -/
lemma extended_step (before more : List ℤ) :
    Coupled (· = .inputExhausted) (Extended before more) (Extended before more) step step
      (Equally (Extended before more)) := by
  rintro s t rfl
  cases i : index? s.program.length s.pc with
  | none =>
    have fetched : fetch s = .error .indexError s := by simp only [fetch, i]
    have fetched' : fetch (s.extend before more) = .error .indexError (s.extend before more) := by
      simp only [fetch, EmulatorService.extend, i]
    have run : step s = .error .indexError s := bind_error fetched
    have run' : step (s.extend before more) = .error .indexError _ := bind_error fetched'
    rw [run, run']
    exact .error rfl
  | some k =>
    have run' : step (s.extend before more) =
        execute s.program[k] (EmulatorService.extend before more { s with pc := s.pc + 1 }) :=
      step_eq i
    have executed : Coupled (· = .inputExhausted) (Extended before more) (Extended before more)
        (execute s.program[k]) (execute (s.program[k].rename id))
        (Equally (Extended before more)) := by
      refine (extended_symmetric before more).execute (fun _ _ => trivial) (fun _ _ kept => kept)
        ?_ ?_
      · rintro - v s t rfl
        exact .ok ⟨rfl, rfl⟩
      · rintro o - s t rfl
        exact .ok ⟨rfl, rfl⟩
    rw [InstructionDto.rename_id] at executed
    rw [step_eq i, run']
    exact executed _ _ rfl

variable {before more : List ℤ} {s t : EmulatorService}

/-- Steps that do not run out of input. -/
lemma extended_goes {k : ℕ} (goes : Goes (·.halted) step k s t) :
    Goes (·.halted) step k (s.extend before more) (t.extend before more) := by
  induction goes with
  | refl => exact .refl
  | head going next rest ih =>
    obtain ⟨_, _, next', -, rfl⟩ := (extended_step before more _ _ rfl).returns next
    exact .head going next' ih

/-- With more input to come and earlier output, a run does what it did, and leaves the additional
    input alone. A run that runs out of input has read all of it and met an `IN` after some number of
    steps, and with more input it takes the same steps and goes on at that `IN`. -/
theorem run_extended (s : EmulatorService) (max_steps : ℤ) (before more : List ℤ) :
    (∀ s', run max_steps s = .ok () s' →
      run max_steps (s.extend before more) = .ok () (s'.extend before more)) ∧
    (∀ e s', run max_steps s = .error e s' → e ≠ .inputExhausted →
      run max_steps (s.extend before more) = .error e (s'.extend before more)) ∧
    ∀ s', run max_steps s = .error .inputExhausted s' → s'.char_input = [] ∧
      ∃ (k : ℕ) (i : InstructionDto), k < max_steps ∧
        Goes (·.halted) step k s { s' with pc := s'.pc - 1 } ∧
        fetch { s' with pc := s'.pc - 1 } = .ok i { s' with pc := s'.pc - 1 } ∧ i.opcode = .IN ∧
        Goes (·.halted) step k (s.extend before more)
          (EmulatorService.extend before more { s' with pc := s'.pc - 1 }) ∧
        run max_steps (s.extend before more) =
          runLoop max_steps k (EmulatorService.extend before more { s' with pc := s'.pc - 1 }) := by
  have going := (extended_step before more).mono
    (fun s t (h : Extended before more s t ∧ s.halted = false) => h.1) fun _ _ _ _ ends => ends
  have ends := runLoop_coupled going (by rintro s t rfl; rfl) max_steps 0 s _ rfl
  refine ⟨fun s' returns => ?_, fun e s' raised supplied => ?_, fun s' raised => ?_⟩
  · obtain ⟨_, _, returns', -, rfl⟩ := ends.returns returns
    exact returns'
  · obtain ⟨_, raised', rfl⟩ := ends.raises raised supplied
    exact raised'
  · rw [run, runLoop_eq] at raised
    rcases untilStop_error raised with ⟨k, lt, u, goes, -, raised⟩ | ⟨guard, -⟩
    · obtain ⟨i, fetched, isIn, empty, rfl⟩ := step_exhausted raised
      have back : ({ u with pc := u.pc + 1 - 1 } : EmulatorService) = u := by
        rw [Int.add_sub_cancel]
      have goes' : Goes (·.halted) step k (s.extend before more) (u.extend before more) :=
        extended_goes goes
      have whole : (max_steps - 0).toNat = k + (max_steps - k).toNat := by omega
      refine ⟨empty, k, i, by omega, ?_, ?_, isIn, ?_, ?_⟩
      · rwa [back]
      · rwa [back]
      · rwa [back]
      · rw [run, runLoop_eq, whole, goes'.untilStop, runLoop_eq, back]
    · cases guard

/-- An `IN` without input after one step, and the run that finds some. -/
theorem run_extended_in : ∃ s t : EmulatorService, s.char_input = [66] ∧
    run 3 s = .error .inputExhausted t ∧ t.char_input = [] ∧
      ∃ (k : ℕ) (i : InstructionDto), (k : ℤ) < 3 ∧
        Goes (·.halted) step k s { t with pc := t.pc - 1 } ∧
        fetch { t with pc := t.pc - 1 } = .ok i { t with pc := t.pc - 1 } ∧ i.opcode = .IN ∧
        Goes (·.halted) step k (s.extend [] [65])
          (EmulatorService.extend [] [65] { t with pc := t.pc - 1 }) ∧
        run 3 (s.extend [] [65]) =
          runLoop 3 k (EmulatorService.extend [] [65] { t with pc := t.pc - 1 }) := by
  let s : EmulatorService :=
    ⟨fun _ => 0, ⟨.zeroed _, .init .., .init ..⟩, [66], [], [.IN "C", .IN "C", .HALT], 0, false⟩
  obtain ⟨t, raised⟩ : ∃ t, run 3 s = .error .inputExhausted t :=
    ⟨_, (congrFun (run_eq 3) s).trans rfl⟩
  obtain ⟨empty, resumed⟩ := (run_extended s 3 [] [65]).2.2 t raised
  exact ⟨s, t, rfl, raised, empty, resumed⟩

end MinCpuForth.Emulator
