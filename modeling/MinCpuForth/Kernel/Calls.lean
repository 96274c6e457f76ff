import MinCpuForth.Emulator.BareBlock
import MinCpuForth.Kernel.Contract
import MinCpuForth.Kernel.Image

/-!
# Calling a routine

The emulator enters a routine of the kernel at its label, with the program index of `NEXT` in
`NEXTREG`; the routine has returned once the emulator is at `NEXT` again. What a routine has done
by then is stated cell by cell.
-/

namespace MinCpuForth.Kernel
open Python Domain Adapters Assembler Emulator Lib Layout EmulatorService

lemma lookup_NEXT : kernelLabels.lookup (py "NEXT") = some NEXT_INDEX :=
  lookup_kernelLabels (List.mem_cons_self ..) (.tail _ (.head _))

/-- The emulator as far as a routine goes: it stops when it comes to `NEXT`. -/
def routine : EmulatorService → Outcome PyError EmulatorService :=
  upTo (fun s => s.pc = NEXT_INDEX) advance

/-- The same on the bare machine. -/
def bareRoutine : Bare → Outcome PyError Bare := upTo (fun v => v.pc = NEXT_INDEX) Bare.step

/-- Runs of a routine on the bare machine are runs of the emulator. -/
lemma routine_simulates : Simulates bare routine bareRoutine := bare_simulates.upTo fun _ => Iff.rfl

/-- The assembled kernel is about to execute the code at a label. -/
structure Enters (label : PyStr) (s : EmulatorService) : Prop where
  program : s.program = kernelProgram
  running : s.halted = false
  pc : kernelLabels.lookup label = some s.pc
  next : kernelLabels.lookup (py "NEXT") = some (s.registers Register.NEXT_POINTER)

/-- The routine entered in the first state is at `NEXT` in the second, and has left alone the
    registers of the threading core, the pointer of the return stack and the output. -/
structure Returns (s t : EmulatorService) : Prop where
  program : t.program = s.program
  running : t.halted = false
  pc : kernelLabels.lookup (py "NEXT") = some t.pc
  ip : t.registers Register.IP = s.registers Register.IP
  w : t.registers Register.W = s.registers Register.W
  xt : t.registers Register.XT = s.registers Register.XT
  next : t.registers Register.NEXT_POINTER = s.registers Register.NEXT_POINTER
  return_pointer : t.data.return_stack.pointer = s.data.return_stack.pointer
  output : t.char_output = s.char_output

/-- A routine that replaces the top cell of the data stack by `x` and, on top of it, `y`, and
    changes nothing else. -/
structure Answers (s t : EmulatorService) (x y : ℤ) : Prop extends Returns s t where
  pointer : t.data.data_stack.pointer = s.data.data_stack.pointer - 1
  cell : t.data.memory.cell = Function.update
    (Function.update s.data.memory.cell s.data.data_stack.pointer x)
      (s.data.data_stack.pointer - 1) y
  input : t.char_input = s.char_input

/-- What a routine that takes one cell and leaves two finds on the data stack. -/
structure TakesOne (s : EmulatorService) : Prop where
  one : s.data.data_stack.pointer < DATA_STACK_BASE
  room : DICTIONARY_TOP < s.data.data_stack.pointer

/-- The cell on top of the data stack. -/
def top (s : EmulatorService) : ℤ := s.data.memory.cell s.data.data_stack.pointer

/-- A counted string of these character codes lies in the memory. -/
structure StringAt (cell : ℤ → ℤ) (address : ℤ) (codes : List ℤ) : Prop where
  low : 0 ≤ address
  high : address + codes.length < MEMORY_SIZE
  cells : CellsAt cell address (codes.length :: codes)

/-- What a routine leaves alone as long as it runs. -/
@[mk_iff kept_iff'] structure Kept (v u : Bare) : Prop where
  program : u.program = v.program
  running : u.halted = v.halted
  ip : u.regs Register.IP = v.regs Register.IP
  w : u.regs Register.W = v.regs Register.W
  xt : u.regs Register.XT = v.regs Register.XT
  next : u.regs Register.NEXT_POINTER = v.regs Register.NEXT_POINTER
  rp : u.rp = v.rp
  output : u.output = v.output

/-- `Kept`, with the names of the registers spelled out for the simplifier. -/
lemma kept_iff {v u : Bare} : Kept v u ↔
    u.program = v.program ∧ u.halted = v.halted ∧ u.regs "IP" = v.regs "IP" ∧
      u.regs "W" = v.regs "W" ∧ u.regs "XT" = v.regs "XT" ∧
      u.regs "NEXTREG" = v.regs "NEXTREG" ∧ u.rp = v.rp ∧ u.output = v.output :=
  kept_iff' ..

namespace Kept

variable {v u t : Bare}

lemma trans (h : Kept v u) (h' : Kept u t) : Kept v t :=
  ⟨h'.program.trans h.program, h'.running.trans h.running, h'.ip.trans h.ip, h'.w.trans h.w,
    h'.xt.trans h.xt, h'.next.trans h.next, h'.rp.trans h.rp, h'.output.trans h.output⟩

end Kept

/-- Only registers of the routine's own have changed. -/
@[mk_iff quiet_iff'] structure Quiet (v u : Bare) : Prop where
  kept : Kept v u
  input : u.input = v.input
  cell : u.cell = v.cell
  sp : u.sp = v.sp

lemma quiet_iff {v u : Bare} :
    Quiet v u ↔ Kept v u ∧ u.input = v.input ∧ u.cell = v.cell ∧ u.sp = v.sp :=
  quiet_iff' ..

/-- The routine has popped a cell, and nothing else but its registers has changed. -/
@[mk_iff] structure Popped (v u : Bare) : Prop where
  kept : Kept v u
  input : u.input = v.input
  cell : u.cell = v.cell
  sp : u.sp = v.sp + 1

/-- The routine is back with the top cell replaced by `x` and, on top of it, `y`. -/
@[mk_iff] structure Pushed (v : Bare) (x y : ℤ) (u : Bare) : Prop where
  kept : Kept v u
  input : u.input = v.input
  cell : u.cell = Function.update (Function.update v.cell v.sp x) (v.sp - 1) y
  sp : u.sp = v.sp - 1
  pc : u.pc = v.regs "NEXTREG"

lemma Popped.quiet {v u t : Bare} (h : Popped v u) (h' : Quiet u t) : Popped v t :=
  ⟨h.kept.trans h'.kept, h'.input.trans h.input, h'.cell.trans h.cell, h'.sp.trans h.sp⟩

/-- The machine runs, and the code of a routine lies at an index. -/
structure Loaded (code : List InstructionDto) (b : ℤ) (v : Bare) : Prop where
  running : v.halted = false
  above : NEXT_INDEX < b
  codeAt : CodeAt v.program b code

/-- The code stays where it is. -/
lemma Loaded.kept {code : List InstructionDto} {b : ℤ} {v u : Bare} (h : Loaded code b v)
    (kept : Kept v u) : Loaded code b u :=
  ⟨kept.running.trans h.running, h.above, by rw [kept.program]; exact h.codeAt⟩

namespace Enters

variable {label : PyStr} {s t : EmulatorService}

/-- The code of the `k`-th routine lies at the program counter. -/
lemma loaded (h : Enters label s) (k : ℕ) (code : ℤ → List InstructionDto) {r : Routine}
    (hr : ROUTINES[k]? = some r) (defined : (label, r.base) ∈ r.labels)
    (hc : r.code = code r.base) (above : NEXT_INDEX < r.base) : Loaded (code s.pc) s.pc (bare s) := by
  have mem : r ∈ ROUTINES := List.mem_of_getElem? hr
  have pc := h.pc
  rw [lookup_kernelLabels mem defined] at pc
  rw [← Option.some.inj pc]
  refine ⟨h.running, above, ?_⟩
  rw [show (bare s).program = kernelProgram from h.program, ← hc]
  exact codeAt_kernel mem

/-- A state at `NEXT` that the routine has reached. -/
lemma returns (h : Enters label s) (kept : Kept (bare s) (bare t))
    (pc : (bare t).pc = (bare s).regs Register.NEXT_POINTER) : Returns s t where
  program := kept.program
  running := kept.running.trans h.running
  pc := by rw [h.next]; exact congrArg some pc.symm
  ip := kept.ip
  w := kept.w
  xt := kept.xt
  next := kept.next
  return_pointer := kept.rp
  output := kept.output

/-- A run of the bare machine to the end of such a routine. -/
lemma answers (h : Enters label s) {x y : ℤ} {u : Bare} (r : Reaches bareRoutine (bare s) u)
    (pushed : Pushed (bare s) x y u) : ∃ t, Reaches routine s t ∧ Answers s t x y := by
  obtain ⟨t, r', rfl⟩ := routine_simulates.reaches r
  refine ⟨t, r', ?_⟩
  exact ⟨h.returns pushed.kept pushed.pc, pushed.sp, pushed.cell, pushed.input⟩

end Enters

/-- The block runs from `v` to a state of which `P` holds. -/
def Ensures (is : List InstructionDto) (v : Bare) (P : Bare → Prop) : Prop :=
  ∃ u, Bare.block is v = .next u ∧ P u

/-- A part of a routine takes the machine on. -/
lemma Ensures.run {code : List InstructionDto} {b : ℤ} {v : Bare} {P : Bare → Prop} {k n : ℕ}
    (h : Ensures ((code.drop k).take n) v P) (loaded : Loaded code b v) (pc : v.pc = b + k)
    (lt : k < code.length) (pos : 0 < n) : ∃ u, Progresses bareRoutine v u ∧ P u := by
  obtain ⟨u, run, hu⟩ := h
  exact ⟨u, Bare.part_progress loaded.codeAt loaded.running loaded.above k n pc lt pos run, hu⟩

/-- What holds throughout a part of a routine, and always after it. -/
lemma Ensures.always {code : List InstructionDto} {b : ℤ} {v : Bare} {P Q : Bare → Prop} {k n : ℕ}
    (h : Ensures ((code.drop k).take n) v P) (loaded : Loaded code b v) (pc : v.pc = b + k)
    (le : k ≤ code.length) (through : ∀ u ∈ Bare.visits ((code.drop k).take n) v, Q u)
    (after : ∀ u, P u → Always Q bareRoutine u) : Always Q bareRoutine v := by
  obtain ⟨u, run, hu⟩ := h
  exact Bare.part_always loaded.codeAt loaded.running loaded.above k n pc le run through (after u hu)

/-- What holds throughout a part of a routine that fails. -/
lemma Loaded.always_of_fail {code : List InstructionDto} {b : ℤ} {v : Bare} {Q : Bare → Prop}
    {e : PyError} {k n : ℕ} (loaded : Loaded code b v) (pc : v.pc = b + k) (le : k ≤ code.length)
    (run : Bare.block ((code.drop k).take n) v = .fail e)
    (through : ∀ u ∈ Bare.visits ((code.drop k).take n) v, Q u) : Always Q bareRoutine v :=
  Bare.part_always_of_fail loaded.codeAt loaded.running loaded.above k n pc le run through

/-- The kernel's instructions are well formed. -/
lemma kernel_wellFormed : ∀ i ∈ kernelProgram, WellFormed i :=
  @assemble_wellFormed .ascii _ _ (@assemble_kernel .ascii)

/-- Every run of a routine on the emulator is one on the bare machine. -/
lemma reaches_bare {s t : EmulatorService} (program : s.program = kernelProgram)
    (r : Reaches routine s t) : Reaches bareRoutine (bare s) (bare t) := by
  refine routine_simulates.reflects r fun v r' => ?_
  have there : v.program = kernelProgram := by
    refine Reaches.invariant (fun u => u.program = kernelProgram) (fun u w hu e => ?_) program
      r'.of_upTo
    rw [Bare.step_program (by rw [hu]; exact kernel_wellFormed) e, hu]
  have known : Bare.step v ≠ .unknown := Bare.step_known (by rw [there]; exact kernel_wellFormed)
  intro e
  unfold bareRoutine upTo at e
  split at e
  · cases e
  · exact known e

section Examples

/-- A memory with these cells, zero elsewhere. -/
def storing (cells : List (ℤ × ℤ)) : MachineMemory :=
  cells.foldl (fun m p => m.set p.1 p.2) (.zeroed _)

lemma cell_storing {cells : List (ℤ × ℤ)} (h : ∀ p ∈ cells, Inside p.1) : (storing cells).cell =
    cells.foldl (fun c p => Function.update c p.1 p.2) fun _ => 0 := by
  suffices f : ∀ (m : MachineMemory) (c : ℤ → ℤ), m.cell = c →
      (cells.foldl (fun m p => m.set p.1 p.2) m).cell =
        cells.foldl (fun c p => Function.update c p.1 p.2) c from
    f _ _ ListMemoryAdapter.cell_zeroed
  induction cells with
  | nil => exact fun _ _ e => e
  | cons p cells ih =>
    intro m c e
    refine ih (fun q mem => h q (.tail _ mem)) _ _ ?_
    rw [ListMemoryAdapter.cell_set m p.2 (h p (.head _)), e]

/-- A machine about to execute the kernel's code at an index. -/
def poised (pc : ℤ) (memory : MachineMemory) (data_stack : DataStack) (input : List ℤ) :
    EmulatorService where
  registers := Function.update (fun _ => 0) Register.NEXT_POINTER 3
  data := ⟨memory, data_stack, .init ..⟩
  char_input := input
  char_output := []
  program := kernelProgram
  pc := pc
  halted := false

/-- It enters the routine with that index. -/
lemma poised_enters {label : PyStr} {pc : ℤ} {memory : MachineMemory} {data_stack : DataStack}
    {input : List ℤ} (k : ℕ) {r : Routine} (hr : ROUTINES[k]? = some r)
    (defined : (label, pc) ∈ r.labels) : Enters label (poised pc memory data_stack input) where
  program := rfl
  running := rfl
  pc := lookup_kernelLabels (List.mem_of_getElem? hr) defined
  next := by
    simp [lookup_NEXT, poised]

end Examples

end MinCpuForth.Kernel
