import Mathlib.Data.Nat.SuccPred
import MinCpuForth.Kernel.Contract
import MinCpuForth.Kernel.Image

/-!
# The threading core

The machine between two words of a thread: `NEXT` is about to run, and `IP` points to the cell of
the next word. What `NEXT`, `ENTER`, `EXIT`, `LIT` and `BYE` do.
-/

namespace MinCpuForth.Kernel
open Python Domain Layout Emulator Lib Routines View

/-- What the threading core works on. -/
@[ext] structure Threaded where
  ip : ℤ
  ds : List ℤ
  rs : List ℤ
  mem : ℤ → ℤ
  input : List ℤ
  output : List ℤ

/-- `NEXT` is about to run. -/
@[mk_iff] structure AtNext (v : View) (t : Threaded) : Prop where
  runs : Runs v
  program : v.program = kernelProgram
  pc : v.pc = NEXT_INDEX
  next : v.regs Register.NEXT_POINTER = NEXT_INDEX
  ip : v.regs Register.IP = t.ip
  ds : v.ds = t.ds
  rs : v.rs = t.rs
  mem : v.mem = t.mem
  input : v.input = t.input
  output : v.output = t.output

/-- `NEXT` has jumped to a routine: `W` holds the code field address, and `IP` has moved on. -/
@[mk_iff] structure Entered (v : View) (t : Threaded) : Prop where
  runs : Runs v
  program : v.program = kernelProgram
  pc : v.pc = t.mem (t.mem t.ip)
  next : v.regs Register.NEXT_POINTER = NEXT_INDEX
  ip : v.regs Register.IP = t.ip + 1
  w : v.regs Register.W = t.mem t.ip
  ds : v.ds = t.ds
  rs : v.rs = t.rs
  mem : v.mem = t.mem
  input : v.input = t.input
  output : v.output = t.output

/-- The threading core lies at the start of the kernel. -/
lemma core_at : CodeAt kernelProgram 0 (CORE_code 0) :=
  codeAt_kernel (r := ⟨CORE_LINES, 0, CORE_code 0, [("START", 0), ("NEXT", 3), ("ENTER", 7)]⟩)
    (List.mem_cons_self ..)

/-- `START` holds the program index of `NEXT` and goes there. -/
lemma start_run {v : View} (runs : Runs v) (program : v.program = kernelProgram) (pc : v.pc = 0) :
    ∃ u, Reaches step v u ∧ AtNext u
      { ip := v.regs Register.IP, ds := v.ds, rs := v.rs, mem := v.mem, input := v.input,
        output := v.output } := by
  obtain ⟨running, ds_le, rs_le⟩ := runs
  have code := core_at
  rw [← program] at code
  obtain ⟨u, run, next⟩ : ∃ u, block (((CORE_code 0).drop 0).take 3) v = .next u ∧ AtNext u
      { ip := v.regs Register.IP, ds := v.ds, rs := v.rs, mem := v.mem, input := v.input,
        output := v.output } := by
    simp [CORE_code, block, running, atNext_iff, runs_iff, ds_le, rs_le, program, Register.IP,
      Register.NEXT_POINTER]
  have p := part_progress code running 0 3 (by simp [pc]) (by simp [CORE_code]) (by omega) run
  exact ⟨u, p.reaches, next⟩

variable {v : View} {t : Threaded}

/-- `NEXT` fetches a code field address, moves `IP` on and jumps to the routine. -/
lemma next_run (h : AtNext v t) (ip : Below t.ip) (cfa : Below (t.mem t.ip)) :
    ∃ u, Reaches step v u ∧ Entered u t := by
  obtain ⟨⟨running, ds_le, rs_le⟩, program, pc, next, hip, ds, rs, mem, input, output⟩ := h
  simp only [Register.IP, Register.NEXT_POINTER] at next hip
  have code := core_at
  rw [← program] at code
  obtain ⟨u, run, entered⟩ : ∃ u, block (((CORE_code 0).drop 3).take 4) v = .next u ∧
      Entered u t := by
    rw [ds] at ds_le
    rw [rs] at rs_le
    simp [CORE_code, block, running, hip, mem, if_pos ip, if_pos cfa, entered_iff, runs_iff, ds_le,
      rs_le, program, next, ds, rs, input, output, Register.IP, Register.W, Register.NEXT_POINTER]
  have p := part_progress code running 3 4 (by simp [pc]) (by simp [CORE_code]) (by omega) run
  exact ⟨u, p.reaches, entered⟩

/-- What became of a thread that is to arrive at `ip`. -/
def Performs (v : View) (t : Threaded) (ip : ℤ) : Verdict → Prop
  | .ok ds rs => ∃ u, Reaches step v u ∧ AtNext u { t with ip := ip, ds := ds, rs := rs }
  | .fault e => Fails step v e
  | .diverges => Diverges step v

/-- A run, and then what became of the rest of the thread. -/
lemma Performs.after {u : View} {t' : Threaded} {ip : ℤ} {verdict : Verdict} (r : Reaches step v u)
    (mem : t'.mem = t.mem) (input : t'.input = t.input) (output : t'.output = t.output)
    (h : Performs u t' ip verdict) : Performs v t ip verdict := by
  cases verdict with
  | ok ds rs =>
    obtain ⟨w, r', next⟩ := h
    refine ⟨w, r.trans r', ?_⟩
    rwa [mem, input, output] at next
  | fault e => exact r.fails h
  | diverges => exact r.diverges h

/-- A routine that keeps its promise, entered from `NEXT`. -/
lemma Entered.performs {u : View} {verdict : Verdict} (h : Entered u t) (m : Meets u verdict)
    (room : ∀ ds rs, verdict = .ok ds rs → ds.length ≤ 1024 ∧ rs.length ≤ 1024) :
    Performs u t (t.ip + 1) verdict := by
  cases verdict with
  | ok ds rs =>
    obtain ⟨w, r, back⟩ := m
    obtain ⟨ds_le, rs_le⟩ := room ds rs rfl
    refine ⟨w, r.of_upTo, ⟨back.keeps.running.trans h.runs.running, ?_, ?_⟩, ?_, ?_, ?_, ?_, ?_, ?_, ?_, ?_, ?_⟩
    · rw [back.ds]
      exact ds_le
    · rw [back.rs]
      exact rs_le
    · exact back.keeps.program.trans h.program
    · exact back.pc.trans h.next
    · exact back.keeps.next.trans h.next
    · exact back.keeps.ip.trans h.ip
    · exact back.ds
    · exact back.rs
    · exact back.mem.trans h.mem
    · exact back.keeps.input.trans h.input
    · exact back.keeps.output.trans h.output
  | fault e => exact m.of_upTo
  | diverges => exact m.of_upTo

section CoreWords

/-! The words that move through threads. Their code is given by the cell that the next word's code
field address points to. -/

/-- `LIT` pushes the cell after it, and steps over it. -/
lemma lit_run (h : AtNext v t) (ip : Below t.ip) (ip' : Below (t.ip + 1))
    (cfa : Below (t.mem t.ip)) (code : CodeAt kernelProgram (t.mem (t.mem t.ip)) LIT_code) :
    Performs v t (t.ip + 2) (if t.ds.length < 1024 then .ok (t.mem (t.ip + 1) :: t.ds) t.rs
      else .fault .stackOverflow) := by
  obtain ⟨u, r, ⟨running, ds_le, rs_le⟩, program, pc, next, hip, w, ds, rs, mem, input, output⟩ :=
    next_run h ip cfa
  simp only [Register.IP, Register.NEXT_POINTER] at next hip
  rw [ds] at ds_le
  rw [rs] at rs_le
  rw [← pc, ← program] at code
  split
  · rename_i room
    obtain ⟨u', run, next'⟩ : ∃ u', block LIT_code u = .next u' ∧ AtNext u'
        { t with ip := t.ip + 2, ds := t.mem (t.ip + 1) :: t.ds } := by
      simp [LIT_code, block, running, hip, mem, if_pos ip', ds, room, rs, rs_le, program, next,
        input, output, atNext_iff, runs_iff, Register.IP, Register.NEXT_POINTER, Int.add_assoc]
    exact ⟨u', r.trans (block_next running code run), next'⟩
  · rename_i full
    refine r.fails (block_fail running code ?_)
    simp [LIT_code, block, running, hip, if_pos ip', ds, full]

/-- `ENTER` saves the way back, and goes to the word's own thread. -/
lemma enter_run (h : AtNext v t) (ip : Below t.ip) (cfa : Below (t.mem t.ip))
    (enter : t.mem (t.mem t.ip) = KernelBuilder.ENTER_INDEX) (room : t.rs.length < 1024) :
    ∃ u, Reaches step v u ∧
      AtNext u { t with ip := t.mem t.ip + 1, rs := (t.ip + 1) :: t.rs } := by
  obtain ⟨u, r, ⟨running, ds_le, rs_le⟩, program, pc, next, hip, w, ds, rs, mem, input, output⟩ :=
    next_run h ip cfa
  simp only [Register.IP, Register.W, Register.NEXT_POINTER] at next hip w
  rw [ds] at ds_le
  rw [enter] at pc
  have code := core_at
  rw [← program] at code
  obtain ⟨u', run, next'⟩ : ∃ u', block (((CORE_code 0).drop 7).take 5) u = .next u' ∧
      AtNext u' { t with ip := t.mem t.ip + 1, rs := (t.ip + 1) :: t.rs } := by
    simp [CORE_code, block, running, hip, w, mem, ds, ds_le, rs, room, program, next, input, output,
      atNext_iff, runs_iff, Register.IP, Register.NEXT_POINTER]
  have p := part_progress code running 7 5 (by simp [pc]) (by simp [CORE_code]) (by omega) run
  exact ⟨u', r.trans p.reaches, next'⟩

/-- `ENTER` needs a cell for the way back. -/
lemma enter_overflow (h : AtNext v t) (ip : Below t.ip) (cfa : Below (t.mem t.ip))
    (enter : t.mem (t.mem t.ip) = KernelBuilder.ENTER_INDEX) (full : ¬t.rs.length < 1024) :
    Fails step v .stackOverflow := by
  obtain ⟨u, r, ⟨running, -, -⟩, program, pc, -, -, -, -, rs, -⟩ := next_run h ip cfa
  rw [enter] at pc
  have code := core_at.part 7 5 (by simp [CORE_code])
  have here : u.pc = 0 + (7 : ℕ) := pc
  rw [← here, ← program] at code
  refine r.fails (block_fail running code ?_)
  simp [CORE_code, block, rs, full]

/-- `EXIT` goes back. -/
lemma exit_run {back : ℤ} {rs' : List ℤ} (h : AtNext v t) (ip : Below t.ip)
    (cfa : Below (t.mem t.ip)) (code : CodeAt kernelProgram (t.mem (t.mem t.ip)) EXIT_code)
    (top : t.rs = back :: rs') :
    ∃ u, Reaches step v u ∧ AtNext u { t with ip := back, rs := rs' } := by
  obtain ⟨u, r, ⟨running, ds_le, rs_le⟩, program, pc, next, hip, w, ds, rs, mem, input, output⟩ :=
    next_run h ip cfa
  simp only [Register.IP, Register.NEXT_POINTER] at next hip
  rw [ds] at ds_le
  rw [rs, top, List.length_cons] at rs_le
  rw [← pc, ← program] at code
  obtain ⟨u', run, next'⟩ : ∃ u', block EXIT_code u = .next u' ∧
      AtNext u' { t with ip := back, rs := rs' } := by
    simp [EXIT_code, block, running, rs, top, mem, ds, ds_le, Nat.le_of_succ_le rs_le, program, next,
      input, output, atNext_iff, runs_iff, Register.IP, Register.NEXT_POINTER]
  exact ⟨u', r.trans (block_next running code run), next'⟩

/-- `BYE` halts. -/
lemma bye_run (h : AtNext v t) (ip : Below t.ip) (cfa : Below (t.mem t.ip))
    (code : CodeAt kernelProgram (t.mem (t.mem t.ip)) BYE_code) :
    ∃ u, Halts step v u ∧ u.ds = t.ds ∧ u.rs = t.rs ∧ u.mem = t.mem ∧ u.input = t.input ∧
      u.output = t.output := by
  obtain ⟨u, r, ⟨running, -, -⟩, program, pc, -, -, -, ds, rs, mem, input, output⟩ :=
    next_run h ip cfa
  rw [← pc, ← program] at code
  let u' : View := { u with pc := u.pc + 1, halted := true }
  have run : block BYE_code u = .next u' := rfl
  exact ⟨u', ⟨r.trans (block_next running code run), rfl⟩, ds, rs, mem, input, output⟩

end CoreWords

end MinCpuForth.Kernel
