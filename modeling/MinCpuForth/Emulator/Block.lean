import MinCpuForth.Emulator.View
import MinCpuForth.Lib.Block

/-!
# Blocks of code

Code that lies somewhere in the program, and what executing a block of it does: a block is executed
in order, and only its last instruction may jump.
-/

namespace MinCpuForth.Emulator
open Python Domain Lib

/-- The code lies in the program from index `b` on. -/
def CodeAt (program : List InstructionDto) (b : ℤ) (code : List InstructionDto) : Prop :=
  ∃ pre post, program = pre ++ (code ++ post) ∧ b = pre.length

namespace CodeAt

variable {program code : List InstructionDto} {b : ℤ}

/-- A part of the code. -/
lemma part (h : CodeAt program b code) (k n : ℕ) (le : k ≤ code.length) :
    CodeAt program (b + k) ((code.drop k).take n) := by
  obtain ⟨pre, post, rfl, rfl⟩ := h
  refine ⟨pre ++ code.take k, (code.drop k).drop n ++ post, ?_, ?_⟩
  · have parts : code = code.take k ++ ((code.drop k).take n ++ (code.drop k).drop n) := by
      rw [List.take_append_drop, List.take_append_drop]
    conv_lhs => rw [parts]
    simp only [List.append_assoc]
  · simp [Nat.min_eq_left le]

/-- The first instruction of the code. -/
lemma fetch {i : InstructionDto} {is : List InstructionDto} (h : CodeAt program b (i :: is)) :
    ∃ k : Fin program.length, index? program.length b = some k ∧ program[k] = i := by
  obtain ⟨pre, post, rfl, rfl⟩ := h
  refine ⟨⟨pre.length, by simp⟩, index?_eq_some.mpr (.inl rfl), ?_⟩
  simp

/-- The code after the first instruction. -/
lemma tail {i : InstructionDto} {is : List InstructionDto} (h : CodeAt program b (i :: is)) :
    CodeAt program (b + 1) is := by
  obtain ⟨pre, post, rfl, rfl⟩ := h
  exact ⟨pre ++ [i], post, by simp, by simp⟩

end CodeAt

namespace View

/-- A step at the first instruction of some code. -/
lemma step_fetch {v : View} {i : InstructionDto} {is : List InstructionDto}
    (running : v.halted = false) (code : CodeAt v.program v.pc (i :: is)) :
    step v = exec i { v with pc := v.pc + 1 } := by
  obtain ⟨k, e, rfl⟩ := code.fetch
  simp [step, running, e]

section Instructions

open InstructionDto

variable (v : View) (d r : PyStr) (o : Operand) (n : ℤ)

@[simp] lemma exec_LOAD : exec (LOAD d r) v =
    if Below (v.regs r) then .next (v.setReg d (v.mem (v.regs r))) else .unknown := rfl

@[simp] lemma exec_STORE : exec (STORE d r) v =
    if Below (v.regs d) then .next (v.setMem (v.regs d) (v.regs r)) else .unknown := rfl

@[simp] lemma exec_ADD : exec (ADD d o) v = .next (v.setReg d (v.regs d + v.operand o)) := rfl

@[simp] lemma exec_SUB : exec (SUB d o) v = .next (v.setReg d (v.regs d - v.operand o)) := rfl

@[simp] lemma exec_AND : exec (AND d o) v =
    .next (v.setReg d (Int.land (v.regs d) (v.operand o))) := rfl

@[simp] lemma exec_OR : exec (OR d o) v =
    .next (v.setReg d (Int.lor (v.regs d) (v.operand o))) := rfl

@[simp] lemma exec_INVERT : exec (INVERT d) v = .next (v.setReg d (Int.not (v.regs d))) := rfl

@[simp] lemma exec_JMP : exec (JMP r) v = .next { v with pc := v.regs r } := rfl

@[simp] lemma exec_JZ : exec (JZ r n) v =
    .next (if v.regs r = 0 then { v with pc := v.pc + n } else v) := rfl

@[simp] lemma exec_JS : exec (JS r n) v =
    .next (if v.regs r < 0 then { v with pc := v.pc + n } else v) := rfl

@[simp] lemma exec_PUSH_D : exec (PUSH_D r) v =
    if v.ds.length < 1024 then .next { v with ds := v.regs r :: v.ds }
    else .fail .stackOverflow := rfl

@[simp] lemma exec_POP_D : exec (POP_D d) v =
    match v.ds with
    | [] => .fail .stackUnderflow
    | x :: xs => .next ({ v with ds := xs }.setReg d x) := rfl

@[simp] lemma exec_PUSH_R : exec (PUSH_R r) v =
    if v.rs.length < 1024 then .next { v with rs := v.regs r :: v.rs }
    else .fail .stackOverflow := rfl

@[simp] lemma exec_POP_R : exec (POP_R d) v =
    match v.rs with
    | [] => .fail .stackUnderflow
    | x :: xs => .next ({ v with rs := xs }.setReg d x) := rfl

@[simp] lemma exec_IN : exec (IN d) v =
    match v.input with
    | [] => .fail .inputExhausted
    | c :: cs => .next ({ v with input := cs }.setReg d c) := rfl

@[simp] lemma exec_OUT : exec (OUT r) v = .next { v with output := v.output ++ [v.regs r] } := rfl

@[simp] lemma exec_HALT : exec HALT v = .next { v with halted := true } := rfl

@[simp] lemma setReg_regs (r' : PyStr) :
    (v.setReg d n).regs r' = if r' = d then n else v.regs r' := Function.update_apply ..

@[simp] lemma setReg_program : (v.setReg d n).program = v.program := rfl

@[simp] lemma setReg_pc : (v.setReg d n).pc = v.pc := rfl

@[simp] lemma setReg_ds : (v.setReg d n).ds = v.ds := rfl

@[simp] lemma setReg_rs : (v.setReg d n).rs = v.rs := rfl

@[simp] lemma setReg_mem : (v.setReg d n).mem = v.mem := rfl

@[simp] lemma setReg_input : (v.setReg d n).input = v.input := rfl

@[simp] lemma setReg_output : (v.setReg d n).output = v.output := rfl

@[simp] lemma setReg_halted : (v.setReg d n).halted = v.halted := rfl

@[simp] lemma operand_reg : v.operand (.reg r) = v.regs r := rfl

@[simp] lemma operand_imm : v.operand (.imm n) = n := rfl

end Instructions

/-- Executes a block: every instruction but the last has to continue with the next. -/
def block : List InstructionDto → View → Outcome PyError View
  | [], v => .next v
  | i :: is, v =>
    match exec i { v with pc := v.pc + 1 } with
    | .next w =>
      if is = [] then .next w
      else if w.pc = v.pc + 1 ∧ w.halted = false ∧ w.program = v.program then block is w
      else .unknown
    | o => o

/-- The view executes the code at its program counter. -/
def sequencer : Sequencer InstructionDto step where
  run i v := exec i { v with pc := v.pc + 1 }
  GoesOn v w := w.pc = v.pc + 1 ∧ w.halted = false ∧ w.program = v.program
  decGoesOn _ _ := inferInstance
  At v is := v.halted = false ∧ CodeAt v.program v.pc is
  fetch _ _ _ h := step_fetch h.1 h.2
  tail v w i is h on := by
    refine ⟨on.2.1, ?_⟩
    rw [on.2.2, on.1]
    exact h.2.tail

lemma block_eq (is : List InstructionDto) (v : View) : block is v = sequencer.block is v := by
  induction is generalizing v with
  | nil => rfl
  | cons i is ih =>
    have run : sequencer.run i v = exec i { v with pc := v.pc + 1 } := rfl
    rw [block, Sequencer.block, run]
    cases exec i { v with pc := v.pc + 1 } with
    | next w =>
      cases is with
      | nil => rfl
      | cons j is =>
        by_cases on : sequencer.GoesOn v w
        · exact (if_pos on).trans ((ih w).trans (if_pos on).symm)
        · exact (if_neg on).trans (if_neg on).symm
    | halt | unknown | fail => rfl

/-- A nonempty block that continues is a nonempty run. -/
lemma block_progress {i : InstructionDto} {is : List InstructionDto} {v w : View}
    (running : v.halted = false) (code : CodeAt v.program v.pc (i :: is))
    (h : block (i :: is) v = .next w) : Progresses step v w :=
  sequencer.progresses ⟨running, code⟩ ((block_eq ..).symm.trans h)

/-- A block that continues is a run. -/
lemma block_next {is : List InstructionDto} {v w : View} (running : v.halted = false)
    (code : CodeAt v.program v.pc is) (h : block is v = .next w) : Reaches step v w :=
  sequencer.reaches ⟨running, code⟩ ((block_eq ..).symm.trans h)

/-- A part of some code is executed. -/
lemma part_progress {code : List InstructionDto} {b : ℤ} {v u : View}
    (h : CodeAt v.program b code) (running : v.halted = false) (k n : ℕ) (pc : v.pc = b + k)
    (lt : k < code.length) (pos : 0 < n) (run : block ((code.drop k).take n) v = .next u) :
    Progresses step v u := by
  have there := h.part k n lt.le
  rw [← pc] at there
  cases e : (code.drop k).take n with
  | nil =>
    have := congrArg List.length e
    simp only [List.length_take, List.length_drop, List.length_nil] at this
    omega
  | cons i is =>
    rw [e] at there run
    exact block_progress running there run

/-- A block that fails is a failing run. -/
lemma block_fail {is : List InstructionDto} {v : View} {err : PyError} (running : v.halted = false)
    (code : CodeAt v.program v.pc is) (h : block is v = .fail err) : Fails step v err :=
  sequencer.fails ⟨running, code⟩ ((block_eq ..).symm.trans h)

section UpTo

/-! The view is stopped at an index below the code. -/

variable {code : List InstructionDto} {b n : ℤ} {v u : View}

/-- The code above the index where the view is stopped. -/
def sequencerUpTo (n : ℤ) : Sequencer InstructionDto (upTo (fun v : View => v.pc = n) step) :=
  sequencer.upTo (fun v => n < v.pc) (fun _ above => Int.ne_of_gt above) fun v w on above => by
    rw [on.1]
    omega

/-- A block that continues. -/
lemma upTo_next {is : List InstructionDto} (running : v.halted = false) (above : n < v.pc)
    (code : CodeAt v.program v.pc is) (h : block is v = .next u) :
    Reaches (upTo (fun v : View => v.pc = n) step) v u :=
  (sequencerUpTo n).reaches ⟨⟨running, code⟩, above⟩
    ((sequencer.upTo_block ..).trans ((block_eq ..).symm.trans h))

/-- A block that fails. -/
lemma upTo_fail {is : List InstructionDto} {err : PyError} (running : v.halted = false)
    (above : n < v.pc) (code : CodeAt v.program v.pc is) (h : block is v = .fail err) :
    Fails (upTo (fun v : View => v.pc = n) step) v err :=
  (sequencerUpTo n).fails ⟨⟨running, code⟩, above⟩
    ((sequencer.upTo_block ..).trans ((block_eq ..).symm.trans h))

/-- A part of some code is executed. -/
lemma upTo_progress (h : CodeAt v.program b code) (running : v.halted = false) (above : n < b)
    (k l : ℕ) (pc : v.pc = b + k) (lt : k < code.length) (pos : 0 < l)
    (run : block ((code.drop k).take l) v = .next u) :
    Progresses (upTo (fun v : View => v.pc = n) step) v u := by
  have there := h.part k l lt.le
  rw [← pc] at there
  cases e : (code.drop k).take l with
  | nil =>
    have := congrArg List.length e
    simp only [List.length_take, List.length_drop, List.length_nil] at this
    omega
  | cons i is =>
    rw [e] at there run
    exact (sequencerUpTo n).progresses ⟨⟨running, there⟩, by omega⟩
      ((sequencer.upTo_block ..).trans ((block_eq ..).symm.trans run))

end UpTo

end View

end MinCpuForth.Emulator
