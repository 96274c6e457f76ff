import MinCpuForth.Assembler.Emission
import MinCpuForth.Emulator.Bare

/-!
# Blocks on the bare machine

What executing a block of code does to the bare machine, cell by cell.
-/

namespace MinCpuForth.Emulator.Bare
open Python Domain Adapters Lib Layout Assembler

/-- A step at the first instruction of some code. -/
lemma step_fetch {v : Bare} {i : InstructionDto} {is : List InstructionDto}
    (running : v.halted = false) (code : CodeAt v.program v.pc (i :: is)) :
    step v = exec i { v with pc := v.pc + 1 } := by
  obtain ⟨k, e, rfl⟩ := code.fetch
  simp [step, running, e]

section Instructions

open InstructionDto

variable (v : Bare) (d r : PyStr) (o : Operand) (n : ℤ)

@[simp] lemma exec_LOAD : exec (LOAD d r) v =
    if Inside (v.regs r) then .next (v.setReg d (v.cell (v.regs r)))
    else if Wraps (v.regs r) then .next (v.setReg d (v.cell (v.regs r + MEMORY_SIZE)))
    else .fail .indexError := rfl

@[simp] lemma exec_STORE : exec (STORE d r) v =
    if Inside (v.regs d) then .next (v.setCell (v.regs d) (v.regs r))
    else if Wraps (v.regs d) then .next (v.setCell (v.regs d + MEMORY_SIZE) (v.regs r))
    else .fail .indexError := rfl

@[simp] lemma exec_ADD : exec (ADD d o) v = .next (v.setReg d (v.regs d + v.operand o)) := rfl

@[simp] lemma exec_SUB : exec (SUB d o) v = .next (v.setReg d (v.regs d - v.operand o)) := rfl

@[simp] lemma exec_AND : exec (AND d o) v =
    .next (v.setReg d (Int.land (v.regs d) (v.operand o))) := rfl

@[simp] lemma exec_OR : exec (OR d o) v =
    .next (v.setReg d (Int.lor (v.regs d) (v.operand o))) := rfl

@[simp] lemma exec_INVERT : exec (INVERT d) v = .next (v.setReg d (Int.not (v.regs d))) := rfl

@[simp] lemma exec_JMP : exec (JMP r) v = .next { v with pc := v.regs r } := rfl

@[simp] lemma exec_JZ : exec (JZ r n) v =
    .next (if v.regs r = 0 then { v with pc := v.pc + n } else v) := rfl

@[simp] lemma exec_JS : exec (JS r n) v =
    .next (if v.regs r < 0 then { v with pc := v.pc + n } else v) := rfl

@[simp] lemma exec_PUSH_D : exec (PUSH_D r) v =
    if DICTIONARY_TOP < v.sp then .next ({ v with sp := v.sp - 1 }.setCell (v.sp - 1) (v.regs r))
    else .fail .stackOverflow := rfl

@[simp] lemma exec_POP_D : exec (POP_D d) v =
    if v.sp < DATA_STACK_BASE then .next ({ v with sp := v.sp + 1 }.setReg d (v.cell v.sp))
    else .fail .stackUnderflow := rfl

@[simp] lemma exec_PUSH_R : exec (PUSH_R r) v =
    if DATA_STACK_BASE < v.rp then .next ({ v with rp := v.rp - 1 }.setCell (v.rp - 1) (v.regs r))
    else .fail .stackOverflow := rfl

@[simp] lemma exec_POP_R : exec (POP_R d) v =
    if v.rp < RETURN_STACK_BASE then .next ({ v with rp := v.rp + 1 }.setReg d (v.cell v.rp))
    else .fail .stackUnderflow := rfl

@[simp] lemma exec_IN : exec (IN d) v =
    match v.input with
    | [] => .fail .inputExhausted
    | c :: cs => .next ({ v with input := cs }.setReg d c) := rfl

@[simp] lemma exec_OUT : exec (OUT r) v = .next { v with output := v.output ++ [v.regs r] } := rfl

@[simp] lemma exec_HALT : exec HALT v = .next { v with halted := true } := rfl

@[simp] lemma setReg_regs (r' : PyStr) :
    (v.setReg d n).regs r' = if r' = d then n else v.regs r' := Function.update_apply ..

@[simp] lemma setReg_program : (v.setReg d n).program = v.program := rfl

@[simp] lemma setReg_pc : (v.setReg d n).pc = v.pc := rfl

@[simp] lemma setReg_cell : (v.setReg d n).cell = v.cell := rfl

@[simp] lemma setReg_sp : (v.setReg d n).sp = v.sp := rfl

@[simp] lemma setReg_rp : (v.setReg d n).rp = v.rp := rfl

@[simp] lemma setReg_input : (v.setReg d n).input = v.input := rfl

@[simp] lemma setReg_output : (v.setReg d n).output = v.output := rfl

@[simp] lemma setReg_halted : (v.setReg d n).halted = v.halted := rfl

variable (a x : ℤ)

@[simp] lemma setCell_regs : (v.setCell a x).regs = v.regs := rfl

@[simp] lemma setCell_program : (v.setCell a x).program = v.program := rfl

@[simp] lemma setCell_pc : (v.setCell a x).pc = v.pc := rfl

@[simp] lemma setCell_cell : (v.setCell a x).cell = Function.update v.cell a x := rfl

@[simp] lemma setCell_sp : (v.setCell a x).sp = v.sp := rfl

@[simp] lemma setCell_rp : (v.setCell a x).rp = v.rp := rfl

@[simp] lemma setCell_input : (v.setCell a x).input = v.input := rfl

@[simp] lemma setCell_output : (v.setCell a x).output = v.output := rfl

@[simp] lemma setCell_halted : (v.setCell a x).halted = v.halted := rfl

@[simp] lemma operand_reg : v.operand (.reg r) = v.regs r := rfl

@[simp] lemma operand_imm : v.operand (.imm n) = n := rfl

end Instructions

/-- A well-formed instruction has a meaning. -/
lemma exec_known {i : InstructionDto} (wf : WellFormed i) (v : Bare) : exec i v ≠ .unknown := by
  cases wf with
  | load | store =>
    simp only [exec_LOAD, exec_STORE]
    split
    · exact nofun
    · split <;> exact nofun
  | push_d | pop_d | push_r | pop_r =>
    simp only [exec_PUSH_D, exec_POP_D, exec_PUSH_R, exec_POP_R]
    split <;> exact nofun
  | «in» =>
    rw [exec_IN]
    split <;> exact nofun
  | _ => exact nofun

/-- A step of a well-formed program has a meaning. -/
lemma step_known {v : Bare} (wf : ∀ i ∈ v.program, WellFormed i) : step v ≠ .unknown := by
  unfold step
  split
  · exact nofun
  · split
    · exact exec_known (wf _ (List.getElem_mem _)) _
    · exact nofun

/-- An instruction leaves the program alone. -/
lemma exec_program {i : InstructionDto} (wf : WellFormed i) {v u : Bare} (h : exec i v = .next u) :
    u.program = v.program := by
  cases wf with
  | load | store =>
    simp only [exec_LOAD, exec_STORE] at h
    split at h
    · cases h
      rfl
    · split at h <;> cases h
      rfl
  | push_d | pop_d | push_r | pop_r =>
    simp only [exec_PUSH_D, exec_POP_D, exec_PUSH_R, exec_POP_R] at h
    split at h <;> cases h
    rfl
  | jz | js =>
    cases h
    split <;> rfl
  | «in» =>
    rw [exec_IN] at h
    split at h <;> cases h
    rfl
  | _ =>
    cases h
    rfl

/-- A step leaves the program alone. -/
lemma step_program {v u : Bare} (wf : ∀ i ∈ v.program, WellFormed i) (h : step v = .next u) :
    u.program = v.program := by
  unfold step at h
  split at h
  · cases h
  · split at h
    · exact (exec_program (wf _ (List.getElem_mem _)) h).trans rfl
    · cases h

/-- The bare machine executes the code at its program counter. -/
def sequencer : Sequencer InstructionDto step where
  run i v := exec i { v with pc := v.pc + 1 }
  GoesOn v w := w.pc = v.pc + 1 ∧ w.halted = false ∧ w.program = v.program
  decGoesOn _ _ := inferInstance
  At v is := v.halted = false ∧ CodeAt v.program v.pc is
  fetch _ _ _ h := step_fetch h.1 h.2
  tail v w i is h on := by
    refine ⟨on.2.1, ?_⟩
    rw [on.2.2, on.1]
    exact h.2.tail

/-- Executes a block: every instruction but the last has to continue with the next. -/
def block (is : List InstructionDto) (v : Bare) : Outcome PyError Bare := sequencer.block is v

@[simp] lemma block_nil (v : Bare) : block [] v = .next v := rfl

@[simp] lemma block_cons (i : InstructionDto) (is : List InstructionDto) (v : Bare) :
    block (i :: is) v =
      match exec i { v with pc := v.pc + 1 } with
      | .next w =>
        if is = [] then .next w
        else if w.pc = v.pc + 1 ∧ w.halted = false ∧ w.program = v.program then block is w
        else .unknown
      | o => o := by
  have run : sequencer.run i v = exec i { v with pc := v.pc + 1 } := rfl
  rw [block, Sequencer.block, run]
  cases exec i { v with pc := v.pc + 1 } with
  | next w =>
    cases is with
    | nil => rfl
    | cons j is =>
      by_cases on : sequencer.GoesOn v w
      · exact (if_pos on).trans (if_pos on).symm
      · exact (if_neg on).trans (if_neg on).symm
  | halt | unknown | fail => rfl

/-- The states in which the instructions of a block are executed. -/
def visits (is : List InstructionDto) (v : Bare) : List Bare := sequencer.visits is v

@[simp] lemma visits_nil (v : Bare) : visits [] v = [] := rfl

@[simp] lemma visits_cons (i : InstructionDto) (is : List InstructionDto) (v : Bare) :
    visits (i :: is) v =
      v :: match exec i { v with pc := v.pc + 1 } with
        | .next w => visits is w
        | _ => [] := by
  have run : sequencer.run i v = exec i { v with pc := v.pc + 1 } := rfl
  rw [visits, Sequencer.visits, run]
  cases exec i { v with pc := v.pc + 1 } <;> rfl

section Parts

/-! The machine is stopped at an index below the code. -/

variable {code : List InstructionDto} {b n : ℤ} {v u : Bare}

/-- The code above the index where the machine is stopped. -/
def sequencerUpTo (n : ℤ) : Sequencer InstructionDto (upTo (fun v : Bare => v.pc = n) step) :=
  sequencer.upTo (fun v => n < v.pc) (fun _ above => Int.ne_of_gt above) fun v w on above => by
    rw [on.1]
    omega

/-- A part of some code is executed. -/
lemma part_progress (h : CodeAt v.program b code) (running : v.halted = false) (above : n < b)
    (k l : ℕ) (pc : v.pc = b + k) (lt : k < code.length) (pos : 0 < l)
    (run : block ((code.drop k).take l) v = .next u) :
    Progresses (upTo (fun v : Bare => v.pc = n) step) v u := by
  have there := h.part k l lt.le
  rw [← pc] at there
  cases e : (code.drop k).take l with
  | nil =>
    have := congrArg List.length e
    simp only [List.length_take, List.length_drop, List.length_nil] at this
    omega
  | cons i is =>
    rw [e] at there run
    exact (sequencerUpTo n).progresses ⟨⟨running, there⟩, by omega⟩
      ((sequencer.upTo_block ..).trans run)

/-- A part of some code fails. -/
lemma part_fails {e : PyError} (h : CodeAt v.program b code) (running : v.halted = false)
    (above : n < b) (k l : ℕ) (pc : v.pc = b + k) (le : k ≤ code.length)
    (run : block ((code.drop k).take l) v = .fail e) :
    Fails (upTo (fun v : Bare => v.pc = n) step) v e := by
  have there := h.part k l le
  rw [← pc] at there
  exact (sequencerUpTo n).fails ⟨⟨running, there⟩, by omega⟩ ((sequencer.upTo_block ..).trans run)

/-- What holds throughout a part of some code, and always after it. -/
lemma part_always {P : Bare → Prop} (h : CodeAt v.program b code) (running : v.halted = false)
    (above : n < b) (k l : ℕ) (pc : v.pc = b + k) (le : k ≤ code.length)
    (run : block ((code.drop k).take l) v = .next u)
    (through : ∀ w ∈ visits ((code.drop k).take l) v, P w)
    (after : Always P (upTo (fun v : Bare => v.pc = n) step) u) :
    Always P (upTo (fun v : Bare => v.pc = n) step) v := by
  have there := h.part k l le
  rw [← pc] at there
  refine (sequencerUpTo n).always ⟨⟨running, there⟩, by omega⟩
    ((sequencer.upTo_block ..).trans run) (fun w mem => through w ?_) after
  rwa [sequencerUpTo, sequencer.upTo_visits] at mem

/-- What holds throughout a part of some code that fails. -/
lemma part_always_of_fail {P : Bare → Prop} {e : PyError} (h : CodeAt v.program b code)
    (running : v.halted = false) (above : n < b) (k l : ℕ) (pc : v.pc = b + k)
    (le : k ≤ code.length) (run : block ((code.drop k).take l) v = .fail e)
    (through : ∀ w ∈ visits ((code.drop k).take l) v, P w) :
    Always P (upTo (fun v : Bare => v.pc = n) step) v := by
  have there := h.part k l le
  rw [← pc] at there
  refine (sequencerUpTo n).always_of_fail ⟨⟨running, there⟩, by omega⟩
    ((sequencer.upTo_block ..).trans run) fun w mem => through w ?_
  rwa [sequencerUpTo, sequencer.upTo_visits] at mem

end Parts

end MinCpuForth.Emulator.Bare
