import MinCpuForth.Assembler.Emission
import MinCpuForth.Emulator.Service

/-!
# Assembled programs are well formed for the emulator

The operand signatures are written twice, in `OPERAND_SPECS` and in the handlers. They agree: no
step of an assembled program raises one of the errors for malformed instructions.
-/

namespace MinCpuForth.Emulator
open Python Domain Adapters Lib Assembler EmulatorService

/-- What a step raises on an instruction that its handler cannot take: an operand that is no
    register name, a missing offset, an opcode without a handler. -/
def IsMalformed : PyError → Prop
  | .expectedRegister _ | .missingOffset | .keyError => True
  | _ => False

/-- The action never finds an instruction malformed. -/
abbrev Wellbehaved {σ α : Type} (act : EStateM PyError σ α) : Prop :=
  RaisesOnly (fun e => ¬IsMalformed e) act

section DataPath

variable {base : ℤ} {size n : ℕ}

lemma load_wellbehaved (a : ℤ) :
    Wellbehaved (ListMemoryAdapter.load a : EStateM PyError (ListMemoryAdapter n) ℤ) := by
  intro m e m' h
  unfold ListMemoryAdapter.load ListMemoryAdapter.read at h
  cases i : index? n a <;> rw [i] at h <;> cases h
  exact id

lemma store_wellbehaved (a v : ℤ) :
    Wellbehaved (ListMemoryAdapter.store a v : EStateM PyError (ListMemoryAdapter n) Unit) := by
  intro m e m' h
  unfold ListMemoryAdapter.store ListMemoryAdapter.write at h
  cases i : index? n a <;> rw [i] at h <;> cases h
  exact id

lemma push_wellbehaved (v : ℤ) : Wellbehaved
    (DownwardStackAdapter.push v : EStateM PyError (DownwardStackAdapter.Bound base size n) _) := by
  rintro ⟨s, m⟩ e t h
  unfold DownwardStackAdapter.push at h
  dsimp only at h
  split at h
  · cases h
    exact id
  · rcases ListMemoryAdapter.write_cases (m := m) (a := s.pointer - Layout.CELL_SIZE) (v := v) with
      ⟨-, w⟩ | ⟨k, -, w⟩ <;> rw [w] at h <;> cases h
    exact id

lemma pop_wellbehaved : Wellbehaved
    (DownwardStackAdapter.pop : EStateM PyError (DownwardStackAdapter.Bound base size n) _) := by
  rintro ⟨s, m⟩ e t h
  unfold DownwardStackAdapter.pop ListMemoryAdapter.read at h
  dsimp only at h
  split at h
  · cases h
    exact id
  · cases i : index? n s.pointer <;> rw [i] at h <;> cases h
    exact id

/-- The data path adds no exception to those of its memory. -/
lemma onMemory_wellbehaved {α : Type} {op : EStateM PyError MachineMemory α} (h : Wellbehaved op) :
    Wellbehaved (DataPath.onMemory op) := by
  intro p e p' run
  unfold DataPath.onMemory at run
  cases r : op p.memory with
  | ok a m => rw [r] at run; cases run
  | error e' m =>
    rw [r] at run
    cases run
    exact h _ _ _ r

/-- The data path adds no exception to those of its data stack. -/
lemma onDataStack_wellbehaved {α : Type} {op : EStateM PyError (DataStack × MachineMemory) α}
    (h : Wellbehaved op) : Wellbehaved (DataPath.onData op) := by
  intro p e p' run
  unfold DataPath.onData at run
  cases r : op (p.data_stack, p.memory) with
  | ok a t => rw [r] at run; cases run
  | error e' t =>
    rw [r] at run
    cases run
    exact h _ _ _ r

/-- The data path adds no exception to those of its return stack. -/
lemma onReturnStack_wellbehaved {α : Type} {op : EStateM PyError (ReturnStack × MachineMemory) α}
    (h : Wellbehaved op) : Wellbehaved (DataPath.onReturn op) := by
  intro p e p' run
  unfold DataPath.onReturn at run
  cases r : op (p.return_stack, p.memory) with
  | ok a t => rw [r] at run; cases run
  | error e' t =>
    rw [r] at run
    cases run
    exact h _ _ _ r

/-- The emulator adds no exception to those of its data path. -/
lemma onData_wellbehaved {α : Type} {op : EStateM PyError DataPath α} (h : Wellbehaved op) :
    Wellbehaved (onData op) := by
  intro s e s' run
  unfold onData at run
  cases r : op s.data with
  | ok a t => rw [r] at run; cases run
  | error e' t =>
    rw [r] at run
    cases run
    exact h _ _ _ r

end DataPath

section Handlers

lemma readRegister_wellbehaved (name : PyStr) : Wellbehaved (readRegister name) := by
  intro s e s' h
  cases h

lemma writeRegister_wellbehaved (name : PyStr) (v : ℤ) : Wellbehaved (writeRegister name v) := by
  intro s e s' h
  cases h

lemma readInput_wellbehaved : Wellbehaved readInput := by
  intro s e s' h
  unfold readInput at h
  split at h <;> cases h
  exact id

lemma operandValue_wellbehaved (o : Operand) : Wellbehaved (operandValue (some o)) := by
  cases o with
  | reg name => exact (RaisesOnly.pure name).bind readRegister_wellbehaved
  | imm value => exact RaisesOnly.pure value

lemma exec_binary_wellbehaved (op : ℤ → ℤ → ℤ) (i : InstructionDto) {d : PyStr} {o : Operand}
    (ha : i.a = some d) (hb : i.b = some o) : Wellbehaved (exec_binary op i) := by
  unfold exec_binary requireA
  rw [ha, hb]
  refine (RaisesOnly.pure d).bind fun dst => (readRegister_wellbehaved dst).bind fun x => ?_
  exact (operandValue_wellbehaved o).bind fun y => writeRegister_wellbehaved _ _

lemma exec_branch_wellbehaved (test : ℤ → Bool) (i : InstructionDto) {r : PyStr} {o : ℤ}
    (ha : i.a = some r) (ho : i.offset = some o) : Wellbehaved (exec_branch test i) := by
  unfold exec_branch requireA
  rw [ha, ho]
  refine (RaisesOnly.pure r).bind fun name => (RaisesOnly.pure o).bind fun offset => ?_
  refine (readRegister_wellbehaved name).bind fun x s e s' h => ?_
  split at h <;> cases h

/-- The handler of a well-formed instruction finds the operands that it asks for. -/
lemma execute_wellbehaved {i : InstructionDto} (wf : WellFormed i) : Wellbehaved (execute i) := by
  cases wf with
  | load d r =>
    refine (RaisesOnly.pure d).bind fun dst => (RaisesOnly.pure r).bind fun reg => ?_
    refine (readRegister_wellbehaved reg).bind fun a => ?_
    refine (onData_wellbehaved (onMemory_wellbehaved (load_wellbehaved a))).bind fun v => ?_
    exact writeRegister_wellbehaved dst v
  | store a r =>
    refine (RaisesOnly.pure a).bind fun addr => (RaisesOnly.pure r).bind fun reg => ?_
    refine (readRegister_wellbehaved addr).bind fun i => (readRegister_wellbehaved reg).bind fun v => ?_
    exact onData_wellbehaved (onMemory_wellbehaved (store_wellbehaved i v))
  | add d o | sub d o | and d o | or d o => exact exec_binary_wellbehaved _ _ rfl rfl
  | invert r =>
    refine (RaisesOnly.pure r).bind fun dst => (readRegister_wellbehaved dst).bind fun v => ?_
    exact writeRegister_wellbehaved dst _
  | jmp r =>
    refine (RaisesOnly.pure r).bind fun reg => (readRegister_wellbehaved reg).bind fun v => ?_
    intro s e s' h
    cases h
  | jz r o | js r o => exact exec_branch_wellbehaved _ _ rfl rfl
  | push_d r =>
    refine (RaisesOnly.pure r).bind fun reg => (readRegister_wellbehaved reg).bind fun v => ?_
    exact onData_wellbehaved (onDataStack_wellbehaved (push_wellbehaved v))
  | pop_d r =>
    refine (RaisesOnly.pure r).bind fun dst => ?_
    refine (onData_wellbehaved (onDataStack_wellbehaved pop_wellbehaved)).bind fun v => ?_
    exact writeRegister_wellbehaved dst v
  | push_r r =>
    refine (RaisesOnly.pure r).bind fun reg => (readRegister_wellbehaved reg).bind fun v => ?_
    exact onData_wellbehaved (onReturnStack_wellbehaved (push_wellbehaved v))
  | pop_r r =>
    refine (RaisesOnly.pure r).bind fun dst => ?_
    refine (onData_wellbehaved (onReturnStack_wellbehaved pop_wellbehaved)).bind fun v => ?_
    exact writeRegister_wellbehaved dst v
  | «in» r =>
    refine (RaisesOnly.pure r).bind fun dst => readInput_wellbehaved.bind fun v => ?_
    exact writeRegister_wellbehaved dst v
  | out r =>
    refine (RaisesOnly.pure r).bind fun reg => (readRegister_wellbehaved reg).bind fun v => ?_
    intro s e s' h
    cases h
  | halt =>
    intro s e s' h
    cases h

end Handlers

/-! ## The program stays in place -/

/-- The action keeps what is said of the program and the halted flag, as long as it may set the
    flag. -/
abbrev Keeps {α : Type} (act : Action α) : Prop :=
  ∀ inv : List InstructionDto → Bool → Prop,
    (∀ program halted, inv program halted → inv program true) →
    Preserves (fun s : EmulatorService => inv s.program s.halted) act

/-- The action does not replace the program. -/
abbrev KeepsProgram {α : Type} (act : Action α) : Prop :=
  ∀ program, Preserves (fun s : EmulatorService => s.program = program) act

lemma Keeps.program {α : Type} {act : Action α} (h : Keeps act) : KeepsProgram act :=
  fun program => h (fun current _ => current = program) fun _ _ e => e

/-- The action does not clear the halted flag. -/
lemma Keeps.halted {α : Type} {act : Action α} (h : Keeps act) :
    Preserves (fun s : EmulatorService => s.halted = true) act :=
  h (fun _ halted => halted = true) fun _ _ _ => rfl

lemma requireA_keeps (i : InstructionDto) : Keeps (requireA i) := by
  intro inv halts
  unfold requireA
  split
  · exact Preserves.pure _
  · exact Preserves.throw _

lemma requireRegister_keeps (o : Option Operand) : Keeps (requireRegister o) := by
  intro inv halts
  unfold requireRegister
  split
  · exact Preserves.pure _
  · exact Preserves.throw _
  · exact Preserves.throw _

lemma requireOffset_keeps (o : Option ℤ) : Keeps (requireOffset o) := by
  intro inv halts
  unfold requireOffset
  split
  · exact Preserves.pure _
  · exact Preserves.throw _

lemma readRegister_keeps (name : PyStr) : Keeps (readRegister name) := by
  intro inv halts s a s' h run
  cases run
  exact h

lemma writeRegister_keeps (name : PyStr) (v : ℤ) : Keeps (writeRegister name v) := by
  intro inv halts s a s' h run
  cases run
  exact h

lemma onData_keeps {α : Type} (op : EStateM PyError DataPath α) : Keeps (onData op) := by
  intro inv halts s a s' h run
  unfold onData at run
  cases r : op s.data <;> rw [r] at run <;> cases run
  exact h

lemma readInput_keeps : Keeps readInput := by
  intro inv halts s a s' h run
  unfold readInput at run
  split at run <;> cases run
  exact h

lemma operandValue_keeps (o : Option Operand) : Keeps (operandValue o) := by
  intro inv halts
  unfold operandValue
  split
  · exact Preserves.pure _
  · exact (requireRegister_keeps _ inv halts).bind fun name => readRegister_keeps name inv halts

lemma exec_binary_keeps (op : ℤ → ℤ → ℤ) (i : InstructionDto) : Keeps (exec_binary op i) := by
  intro inv halts
  refine (requireA_keeps i inv halts).bind fun dst => ?_
  refine (readRegister_keeps dst inv halts).bind fun x => ?_
  exact (operandValue_keeps i.b inv halts).bind fun y => writeRegister_keeps dst _ inv halts

lemma exec_branch_keeps (test : ℤ → Bool) (i : InstructionDto) :
    Keeps (exec_branch test i) := by
  intro inv halts
  refine (requireA_keeps i inv halts).bind fun reg => ?_
  refine (requireOffset_keeps _ inv halts).bind fun o => ?_
  refine (readRegister_keeps reg inv halts).bind fun x s a s' h run => ?_
  split at run <;> cases run <;> exact h

/-- No handler replaces the program or clears the halted flag. -/
lemma execute_keeps (i : InstructionDto) : Keeps (execute i) := by
  intro inv halts
  obtain ⟨op, a, b, off⟩ := i
  have hA := requireA_keeps ⟨op, a, b, off⟩ inv halts
  cases op with
  | LOAD =>
    refine hA.bind fun dst => (requireRegister_keeps _ inv halts).bind fun reg => ?_
    refine (readRegister_keeps reg inv halts).bind fun a => ?_
    refine (onData_keeps _ inv halts).bind fun v => ?_
    exact writeRegister_keeps dst v inv halts
  | STORE =>
    refine hA.bind fun addr => (requireRegister_keeps _ inv halts).bind fun reg => ?_
    refine (readRegister_keeps addr inv halts).bind fun a => ?_
    exact (readRegister_keeps reg inv halts).bind fun v => onData_keeps _ inv halts
  | ADD | SUB | AND | OR => exact exec_binary_keeps _ _ inv halts
  | INVERT =>
    refine hA.bind fun dst => (readRegister_keeps dst inv halts).bind fun v => ?_
    exact writeRegister_keeps dst _ inv halts
  | JMP =>
    refine hA.bind fun reg => (readRegister_keeps reg inv halts).bind fun v s a s' h run => ?_
    cases run
    exact h
  | JZ | JS => exact exec_branch_keeps _ _ inv halts
  | PUSH_D | PUSH_R =>
    refine hA.bind fun reg => (readRegister_keeps reg inv halts).bind fun v => ?_
    exact onData_keeps _ inv halts
  | POP_D | POP_R =>
    refine hA.bind fun dst => (onData_keeps _ inv halts).bind fun v => ?_
    exact writeRegister_keeps dst v inv halts
  | IN =>
    refine hA.bind fun dst => (readInput_keeps inv halts).bind fun v => ?_
    exact writeRegister_keeps dst v inv halts
  | OUT =>
    refine hA.bind fun reg => (readRegister_keeps reg inv halts).bind fun v s a s' h run => ?_
    cases run
    exact h
  | HALT =>
    intro s a s' h run
    cases run
    exact halts _ _ h

/-- The instruction that a step fetched, and the state that it executed it in. -/
lemma step_fetched {s : EmulatorService} {r : EStateM.Result PyError EmulatorService Unit}
    (run : step s = r) :
    (index? s.program.length s.pc = none ∧ r = .error .indexError s) ∨
      ∃ i : Fin s.program.length, index? s.program.length s.pc = some i ∧
        execute (s.program.get i) { s with pc := s.pc + 1 } = r := by
  cases h : index? s.program.length s.pc with
  | none =>
    have e : fetch s = .error .indexError s := by simp only [fetch, h]
    exact .inl ⟨rfl, run.symm.trans (bind_error e)⟩
  | some i =>
    have e : fetch s = .ok s.program[i] s := by simp only [fetch, h]
    exact .inr ⟨i, rfl, (bind_ok e).symm.trans run⟩

/-- Steps that return, whether or not the emulator is halted. -/
def Steps : EmulatorService → EmulatorService → Prop :=
  Relation.ReflTransGen fun s t => step s = .ok () t

/-- No step clears the halted flag. -/
lemma step_halted : Preserves (fun s : EmulatorService => s.halted = true) step := by
  intro s a t h run
  rcases step_fetched run with ⟨-, e⟩ | ⟨i, -, run⟩
  · cases e
  · exact (execute_keeps _).halted { s with pc := s.pc + 1 } _ _ h run

/-- No step replaces the program. -/
lemma Steps.program {s s' : EmulatorService} (h : Steps s s') : s'.program = s.program := by
  induction h with
  | refl => rfl
  | tail _ run ih =>
    rcases step_fetched run with ⟨-, e⟩ | ⟨i, -, run⟩
    · cases e
    · exact ((execute_keeps _).program _ _ _ _ rfl run).trans ih

/-- However an assembled program is run, from whatever state and for however many steps, no step
    raises one of the errors for malformed instructions. -/
theorem assembled_never_malformed [UnicodeData] {source : PyStr} {assembly : AssemblyDto}
    (h : assemble source = .ok assembly) {s t u : EmulatorService}
    (loaded : s.program = assembly.program) (run : Steps s t) {e : PyError}
    (raised : step t = .error e u) : ¬IsMalformed e := by
  rcases step_fetched raised with ⟨-, e'⟩ | ⟨i, -, raised⟩
  · cases e'
    exact id
  · have mem : t.program[i] ∈ assembly.program := by
      rw [← loaded, ← run.program]
      exact List.getElem_mem _
    exact execute_wellbehaved (assemble_wellFormed h _ mem) _ _ _ raised

/-- A program whose second step raises. -/
theorem assembled_never_malformed_underflow : ∃ (assembly : AssemblyDto) (s t u : EmulatorService),
    @assemble .ascii "ADD X, 1
POP_D X" = .ok assembly ∧ s.program = assembly.program ∧ Steps s t ∧ s ≠ t ∧
      step t = .error .stackUnderflow u ∧ ¬IsMalformed .stackUnderflow := by
  let assembly : AssemblyDto := ⟨[.ADD "X" (.imm 1), .POP_D "X"], []⟩
  let s : EmulatorService :=
    ⟨fun _ => 0, ⟨.zeroed _, .init _ _, .init _ _⟩, [], [], assembly.program, 0, false⟩
  let t : EmulatorService :=
    { s with registers := Function.update s.registers "X" 1, pc := 1 }
  have assembled : @assemble .ascii "ADD X, 1
POP_D X" = .ok assembly := by decide +kernel
  have run : Steps s t := .single rfl
  have raised : step t = .error .stackUnderflow { t with pc := 2 } := rfl
  have moved : s ≠ t := fun same => absurd (congrArg EmulatorService.pc same) (by decide)
  exact ⟨assembly, s, t, _, assembled, rfl, run, moved, raised,
    @assembled_never_malformed .ascii _ _ assembled _ _ _ rfl run _ raised⟩

end MinCpuForth.Emulator
