import MinCpuForth.Emulator.Clean
import MinCpuForth.Kernel.Calls

/-!
# Accesses to the memory

`LOAD`, `STORE` and the words of the kernel built on them. Each accesses the cell that the address
denotes, or raises and leaves the memory alone.
-/

namespace MinCpuForth.Kernel
open Python Domain Adapters Emulator Lib Layout Routines EmulatorService

/-- The cell that a word accesses which takes `operands` cells off the data stack, the address
    first; or the exception that it raises. -/
def target (operands : ℕ) (p : DataPath) : Except PyError ℤ :=
  if p.data_stack.pointer + operands ≤ DATA_STACK_BASE then
    match cellOf (p.memory.cell p.data_stack.pointer) with
    | some i => .ok i
    | none => .error .indexError
  else .error .stackUnderflow

/-- The address on top of the data stack has been replaced by the value of cell `i`. -/
structure Fetched (p q : DataPath) (i : ℤ) : Prop where
  cell : q.memory.cell = Function.update p.memory.cell p.data_stack.pointer (p.memory.cell i)
  data_pointer : q.data_stack.pointer = p.data_stack.pointer
  return_pointer : q.return_stack.pointer = p.return_stack.pointer

/-- The address and the value below it have been taken, and the value is in cell `i`. -/
structure Stored (p q : DataPath) (i : ℤ) : Prop where
  cell : q.memory.cell = Function.update p.memory.cell i (p.memory.cell (p.data_stack.pointer + 1))
  data_pointer : q.data_stack.pointer = p.data_stack.pointer + 2
  return_pointer : q.return_stack.pointer = p.return_stack.pointer

/-- There is one such data path. -/
lemma Fetched.unique {p q q' : DataPath} {i : ℤ} (h : Fetched p q i) (h' : Fetched p q' i) :
    q = q' :=
  DataPath.ext_cells (h.cell.trans h'.cell.symm) (h.data_pointer.trans h'.data_pointer.symm)
    (h.return_pointer.trans h'.return_pointer.symm)

lemma Stored.unique {p q q' : DataPath} {i : ℤ} (h : Stored p q i) (h' : Stored p q' i) :
    q = q' :=
  DataPath.ext_cells (h.cell.trans h'.cell.symm) (h.data_pointer.trans h'.data_pointer.symm)
    (h.return_pointer.trans h'.return_pointer.symm)

/-- The routine raises `e`, and no cell has changed. -/
def RaisesClean (s : EmulatorService) (e : PyError) : Prop :=
  ∃ t t', Reaches routine s t ∧ step t = .error e t' ∧ t'.data.memory = s.data.memory

variable {s : EmulatorService}

/-- `LOAD`, for every address. -/
lemma load_cellOf (dst addr_reg : PyStr) :
    execute (.LOAD dst addr_reg) s = match cellOf (s.registers addr_reg) with
      | some i =>
        .ok () { s with registers := Function.update s.registers dst (s.data.memory.cell i) }
      | none => .error .indexError s := by
  have shape : execute (.LOAD dst addr_reg) s =
      (onData (DataPath.read (s.registers addr_reg)) >>= writeRegister dst) s := rfl
  have run := s.data.read_cellOf (a := s.registers addr_reg)
  rw [shape]
  cases e : cellOf (s.registers addr_reg) with
  | some i =>
    rw [e] at run
    have data : onData (DataPath.read (s.registers addr_reg)) s = .ok (s.data.memory.cell i) s := by
      rw [onData, run]
    exact bind_ok data
  | none =>
    rw [e] at run
    have data : onData (DataPath.read (s.registers addr_reg)) s = .error .indexError s := by
      rw [onData, run]
    exact bind_error data

/-- `STORE`, for every address. -/
lemma store_cellOf (addr_reg value_reg : PyStr) :
    execute (.STORE addr_reg value_reg) s = match cellOf (s.registers addr_reg) with
      | some i => .ok () { s with data :=
          { s.data with memory := s.data.memory.set i (s.registers value_reg) } }
      | none => .error .indexError s := by
  have shape : execute (.STORE addr_reg value_reg) s =
      onData (DataPath.write (s.registers addr_reg) (s.registers value_reg)) s := rfl
  have run := s.data.write_cellOf (a := s.registers addr_reg) (s.registers value_reg)
  rw [shape, onData, run]
  cases cellOf (s.registers addr_reg) <;> rfl

section Words

variable {v : Bare} {i : ℤ}

lemma exec_load_cellOf (d r : PyStr) : Bare.exec (.LOAD d r) v = match cellOf (v.regs r) with
    | some i => .next (v.setReg d (v.cell i))
    | none => .fail .indexError := by
  rw [Bare.exec_LOAD, cellOf]
  split
  · rfl
  · split <;> rfl

lemma exec_store_cellOf (d r : PyStr) : Bare.exec (.STORE d r) v = match cellOf (v.regs d) with
    | some i => .next (v.setCell i (v.regs r))
    | none => .fail .indexError := by
  rw [Bare.exec_STORE, cellOf]
  split
  · rfl
  · split <;> rfl

attribute [local simp] Ensures FETCH_code STOREW_code kept_iff Int.add_assoc
attribute [local simp] exec_load_cellOf exec_store_cellOf
attribute [-simp] Bare.exec_LOAD Bare.exec_STORE

/-- `FETCH` and `CFETCH`. -/
lemma fetch_block (running : v.halted = false) (one : v.sp < DATA_STACK_BASE)
    (floor : DICTIONARY_TOP ≤ v.sp) (h : cellOf (v.cell v.sp) = some i) :
    Ensures ((FETCH_code.drop 0).take 4) v fun u => Kept v u ∧ u.input = v.input ∧
      u.cell = Function.update v.cell v.sp (v.cell i) ∧ u.sp = v.sp ∧ u.pc = v.regs "NEXTREG" := by
  have room : DICTIONARY_TOP < v.sp + 1 := Int.lt_add_one_of_le floor
  simp [running, one, h, room]

lemma fetch_block_fails (running : v.halted = false) (one : v.sp < DATA_STACK_BASE)
    (h : cellOf (v.cell v.sp) = none) :
    Bare.block ((FETCH_code.drop 0).take 4) v = .fail .indexError ∧
      ∀ u ∈ Bare.visits ((FETCH_code.drop 0).take 4) v, u.cell = v.cell := by
  simp [running, one, h]

lemma fetch_block_underflow (none : ¬v.sp < DATA_STACK_BASE) :
    Bare.block ((FETCH_code.drop 0).take 4) v = .fail .stackUnderflow ∧
      ∀ u ∈ Bare.visits ((FETCH_code.drop 0).take 4) v, u.cell = v.cell := by
  simp [none]

/-- `STOREW` and `CSTOREW`. -/
lemma store_block (running : v.halted = false) (two : v.sp + 1 < DATA_STACK_BASE)
    (h : cellOf (v.cell v.sp) = some i) :
    Ensures ((STOREW_code.drop 0).take 4) v fun u => Kept v u ∧ u.input = v.input ∧
      u.cell = Function.update v.cell i (v.cell (v.sp + 1)) ∧ u.sp = v.sp + 2 ∧
      u.pc = v.regs "NEXTREG" := by
  have one : v.sp < DATA_STACK_BASE := by omega
  simp [running, one, two, h]

lemma store_block_fails (running : v.halted = false) (two : v.sp + 1 < DATA_STACK_BASE)
    (h : cellOf (v.cell v.sp) = none) :
    Bare.block ((STOREW_code.drop 0).take 4) v = .fail .indexError ∧
      ∀ u ∈ Bare.visits ((STOREW_code.drop 0).take 4) v, u.cell = v.cell := by
  have one : v.sp < DATA_STACK_BASE := by omega
  simp [running, one, two, h]

lemma store_block_underflow (running : v.halted = false) (few : ¬v.sp + 1 < DATA_STACK_BASE) :
    Bare.block ((STOREW_code.drop 0).take 4) v = .fail .stackUnderflow ∧
      ∀ u ∈ Bare.visits ((STOREW_code.drop 0).take 4) v, u.cell = v.cell := by
  by_cases one : v.sp < DATA_STACK_BASE <;> simp [running, one, few]

end Words

variable {label : PyStr}

/-- A step that fails has raised. -/
lemma step_of_advance {t : EmulatorService} {e : PyError} (h : advance t = .fail e) :
    ∃ t', step t = .error e t' := by
  unfold advance at h
  split at h
  · cases h
  · split at h
    · cases h
    · rename_i e' t' run
      cases h
      exact ⟨t', run⟩

/-- A routine that raises before it has changed a cell. -/
lemma raises_clean {code : List InstructionDto} {n : ℕ} {e : PyError}
    (loaded : Loaded code s.pc (bare s))
    (fails : Bare.block ((code.drop 0).take n) (bare s) = .fail e ∧
      ∀ u ∈ Bare.visits ((code.drop 0).take n) (bare s), u.cell = (bare s).cell) :
    RaisesClean s e := by
  have pc : (bare s).pc = s.pc + (0 : ℕ) := (Int.add_zero _).symm
  obtain ⟨u, r, f⟩ := Bare.part_fails loaded.codeAt loaded.running loaded.above 0 n pc
    (Nat.zero_le _) fails.1
  have same : u.cell = (bare s).cell :=
    loaded.always_of_fail pc (Nat.zero_le _) fails.1 fails.2 u r
  obtain ⟨t, r', rfl⟩ := routine_simulates.reaches r
  have f' : advance t = .fail e := fail_of_upTo (routine_simulates.fail t e f)
  obtain ⟨t', run⟩ := step_of_advance f'
  have data : t'.data = t.data := by
    rcases step_error run with ⟨-, rfl⟩ | ⟨-, -, rfl⟩ <;> rfl
  exact ⟨t, t', r', run, by rw [data]; exact ListMemoryAdapter.ext_cell fun i _ _ => congrFun same i⟩

/-- What a fetching word finds. -/
lemma fetch_runs (h : Enters label s) (loaded : Loaded FETCH_code s.pc (bare s)) :
    match target 1 s.data with
    | .ok i => ∃ t, Reaches routine s t ∧ Returns s t ∧ Fetched s.data t.data i
    | .error e => RaisesClean s e := by
  have floor : DICTIONARY_TOP ≤ (bare s).sp := s.data.data_stack.floor_le
  have size : (bare s).sp = s.data.data_stack.pointer := rfl
  by_cases one : s.data.data_stack.pointer + (1 : ℕ) ≤ DATA_STACK_BASE
  · rw [target, if_pos one]
    have one' : (bare s).sp < DATA_STACK_BASE := by omega
    cases e : cellOf (s.data.memory.cell s.data.data_stack.pointer) with
    | some i =>
      obtain ⟨u, p, kept, input, cell, sp, pc⟩ := (fetch_block h.running one' floor e).run loaded
        (Int.add_zero _).symm (by simp [FETCH_code]) (by omega)
      obtain ⟨t, r, rfl⟩ := routine_simulates.reaches p.reaches
      exact ⟨t, r, h.returns kept pc, cell, sp, kept.rp⟩
    | none => exact raises_clean loaded (fetch_block_fails h.running one' e)
  · rw [target, if_neg one]
    exact raises_clean loaded (fetch_block_underflow (by omega))

/-- What a storing word finds. -/
lemma store_runs (h : Enters label s) (loaded : Loaded STOREW_code s.pc (bare s)) :
    match target 2 s.data with
    | .ok i => ∃ t, Reaches routine s t ∧ Returns s t ∧ Stored s.data t.data i
    | .error e => RaisesClean s e := by
  have size : (bare s).sp = s.data.data_stack.pointer := rfl
  by_cases two : s.data.data_stack.pointer + (2 : ℕ) ≤ DATA_STACK_BASE
  · rw [target, if_pos two]
    have two' : (bare s).sp + 1 < DATA_STACK_BASE := by omega
    cases e : cellOf (s.data.memory.cell s.data.data_stack.pointer) with
    | some i =>
      obtain ⟨u, p, kept, input, cell, sp, pc⟩ := (store_block h.running two' e).run loaded
        (Int.add_zero _).symm (by simp [STOREW_code]) (by omega)
      obtain ⟨t, r, rfl⟩ := routine_simulates.reaches p.reaches
      exact ⟨t, r, h.returns kept pc, cell, sp, kept.rp⟩
    | none => exact raises_clean loaded (store_block_fails h.running two' e)
  · rw [target, if_neg two]
    exact raises_clean loaded (store_block_underflow h.running (by omega))

/-- `@` and `C@`. -/
lemma fetch_words (mem : label ∈ [py "FETCH", py "CFETCH"]) (h : Enters label s) :
    match target 1 s.data with
    | .ok i => ∃ t, Reaches routine s t ∧ Returns s t ∧ Fetched s.data t.data i
    | .error e => RaisesClean s e := by
  rcases List.mem_pair.mp mem with rfl | rfl
  · exact fetch_runs h (h.loaded 19 (fun _ => FETCH_code) rfl (.head _) rfl (by decide))
  · exact fetch_runs h (h.loaded 21 (fun _ => CFETCH_code) rfl (.head _) rfl (by decide))

/-- `!` and `C!`. -/
lemma store_words (mem : label ∈ [py "STOREW", py "CSTOREW"]) (h : Enters label s) :
    match target 2 s.data with
    | .ok i => ∃ t, Reaches routine s t ∧ Returns s t ∧ Stored s.data t.data i
    | .error e => RaisesClean s e := by
  rcases List.mem_pair.mp mem with rfl | rfl
  · exact store_runs h (h.loaded 20 (fun _ => STOREW_code) rfl (.head _) rfl (by decide))
  · exact store_runs h (h.loaded 22 (fun _ => CSTOREW_code) rfl (.head _) rfl (by decide))

end MinCpuForth.Kernel
